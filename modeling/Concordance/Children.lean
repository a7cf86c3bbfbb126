/-!
# Children by character

The subtrees of a tree whose edges are labelled by characters: an association list in
strictly ascending order of the labels. `upsert` keeps that order (`Ascending.upsert`), sets
what is found under one label (`lookup_upsert_self`) and leaves the others as they are
(`lookup_upsert_of_ne`).
-/

namespace Concordance

/-- Subtrees with the characters that lead to them. -/
abbrev Children (α : Type) := List (Char × α)

namespace Children

/-- The children with the one under `c` replaced by what `f` makes of it, or put in its place
in the order if there is none yet. -/
def upsert (f : Option α → α) (c : Char) : Children α → Children α
  | [] => [(c, f none)]
  | (k, a) :: rest =>
    if c < k then (c, f none) :: (k, a) :: rest
    else if c = k then (k, f (some a)) :: rest
    else (k, a) :: upsert f c rest

/-- The children with `a` under `c`. -/
def put (c : Char) (a : α) (kids : Children α) : Children α :=
  upsert (fun _ => a) c kids

/-- The children without the one under `c`. -/
def erase (c : Char) (kids : Children α) : Children α :=
  kids.filter fun e => e.1 != c

/-- The labels rise strictly from left to right. -/
def Ascending (kids : Children α) : Prop :=
  kids.Pairwise fun a b => a.1 < b.1

/-- Every label of `upsert f c kids` is `c` or one of `kids`. -/
theorem label_of_mem_upsert {f : Option α → α} {c : Char} {kids : Children α} {e : Char × α}
    (he : e ∈ upsert f c kids) : e.1 = c ∨ ∃ e' ∈ kids, e'.1 = e.1 := by
  induction kids with
  | nil => exact Or.inl (by simp_all [upsert])
  | cons head rest ih =>
    obtain ⟨k, a⟩ := head
    simp only [upsert] at he
    split at he
    · rcases List.mem_cons.mp he with rfl | he
      · exact Or.inl rfl
      · exact Or.inr ⟨e, he, rfl⟩
    · split at he
      · rcases List.mem_cons.mp he with rfl | he
        · exact Or.inr ⟨(k, a), List.mem_cons_self, rfl⟩
        · exact Or.inr ⟨e, List.mem_cons_of_mem _ he, rfl⟩
      · rcases List.mem_cons.mp he with rfl | he
        · exact Or.inr ⟨(k, a), List.mem_cons_self, rfl⟩
        · rcases ih he with h | ⟨e', he', h⟩
          · exact Or.inl h
          · exact Or.inr ⟨e', List.mem_cons_of_mem _ he', h⟩

/-- `upsert` keeps the order of the labels. -/
theorem Ascending.upsert {kids : Children α} (h : kids.Ascending) (f : Option α → α) (c : Char) :
    (Children.upsert f c kids).Ascending := by
  induction kids with
  | nil => exact List.pairwise_singleton _ _
  | cons head rest ih =>
    obtain ⟨k, a⟩ := head
    obtain ⟨hhead, hrest⟩ := List.pairwise_cons.mp h
    simp only [Children.upsert]
    split
    · next hlt =>
      refine List.pairwise_cons.mpr ⟨fun e he => ?_, h⟩
      rcases List.mem_cons.mp he with rfl | he
      · exact hlt
      · exact Char.lt_trans hlt (hhead e he)
    · next hlt =>
      split
      · exact List.pairwise_cons.mpr ⟨hhead, hrest⟩
      · next hne =>
        refine List.pairwise_cons.mpr ⟨fun e he => ?_, ih hrest⟩
        rcases label_of_mem_upsert he with h | ⟨e', he', h⟩
        · exact h ▸ Std.lt_of_le_of_ne (Char.not_lt.mp hlt) (fun hk => hne hk.symm)
        · exact h ▸ hhead e' he'

/-- Below its label, `upsert` puts what `f` makes of what was there. -/
theorem lookup_upsert_self {kids : Children α} (h : kids.Ascending) (f : Option α → α)
    (c : Char) : (upsert f c kids).lookup c = some (f (kids.lookup c)) := by
  induction kids with
  | nil => simp [upsert]
  | cons head rest ih =>
    obtain ⟨k, a⟩ := head
    obtain ⟨hhead, hrest⟩ := List.pairwise_cons.mp h
    simp only [upsert]
    split
    · next hlt =>
      have hnone : List.lookup c ((k, a) :: rest) = none := by
        refine List.lookup_eq_none_iff.mpr fun e he => ?_
        rcases List.mem_cons.mp he with rfl | he
        · simpa using Char.ne_of_lt hlt
        · simpa using Char.ne_of_lt (Char.lt_trans hlt (hhead e he))
      rw [hnone, List.lookup_cons_self]
    · split
      · next heq => subst heq; rw [List.lookup_cons_self, List.lookup_cons_self]
      · next hne =>
        have hbeq : (c == k) = false := by simpa using hne
        rw [List.lookup_cons, List.lookup_cons, hbeq]
        exact ih hrest

/-- Below any other label, `upsert` leaves what was there. -/
theorem lookup_upsert_of_ne {k c : Char} (h : k ≠ c) (f : Option α → α) (kids : Children α) :
    (upsert f c kids).lookup k = kids.lookup k := by
  have hbeq : (k == c) = false := by simpa using h
  induction kids with
  | nil => simp [upsert, List.lookup_cons, hbeq]
  | cons head rest ih =>
    obtain ⟨k', a⟩ := head
    simp only [upsert]
    split
    · rw [List.lookup_cons, hbeq]
    · split
      · next heq =>
        subst heq
        rw [List.lookup_cons, List.lookup_cons, hbeq]
      · rw [List.lookup_cons, List.lookup_cons, ih]

end Children

end Concordance
