import Concordance.Children
import Mathlib.Data.List.Sort

/-!
# Looking up children

Where labels rise strictly, a child is found under its label exactly when it is among the
children (`lookup_eq_some_iff`). Everything else about look-ups in changed children follows
from what the change does to membership.

* `Ascending.eq_of_lookup`: children are known by their look-ups.
* `mem_upsert`: the members of `upsert f c kids`.
* `Ascending.exists_around`: the children before a label and those after it, between which
  everything happens that concerns the label (`Around`).
* `lookup_map_filter`: look-up where every child is rewritten and some are dropped.
-/

namespace Concordance

namespace Children

variable {α β : Type}

theorem Ascending.map {kids : Children α} (h : Ascending kids) (f : Char × α → β) :
    Ascending (kids.map fun e => (e.1, f e)) :=
  List.pairwise_map.mpr h

theorem Ascending.filter {kids : Children α} (h : Ascending kids) (p : Char × α → Bool) :
    Ascending (kids.filter p) :=
  List.Pairwise.filter p h

/-- Where labels rise, two children under one label are the same child. -/
theorem Ascending.unique {kids : Children α} (h : Ascending kids) {c : Char} {a b : α}
    (ha : (c, a) ∈ kids) (hb : (c, b) ∈ kids) : a = b := by
  induction kids with
  | nil => cases ha
  | cons head rest ih =>
    obtain ⟨hhead, hrest⟩ := List.pairwise_cons.mp h
    rcases List.mem_cons.mp ha with rfl | ha'
    · rcases List.mem_cons.mp hb with heq | hb'
      · cases heq; rfl
      · exact (Char.lt_irrefl c (hhead (c, b) hb')).elim
    · rcases List.mem_cons.mp hb with rfl | hb'
      · exact (Char.lt_irrefl c (hhead (c, a) ha')).elim
      · exact ih hrest ha' hb'

theorem mem_of_lookup {kids : Children α} {c : Char} {a : α} (h : kids.lookup c = some a) :
    (c, a) ∈ kids := by
  obtain ⟨l₁, l₂, heq, _⟩ := List.lookup_eq_some_iff.mp h
  rw [heq]
  exact List.mem_append_right l₁ List.mem_cons_self

theorem lookup_eq_some_iff {kids : Children α} (h : Ascending kids) {c : Char} {a : α} :
    kids.lookup c = some a ↔ (c, a) ∈ kids := by
  constructor
  · exact mem_of_lookup
  · intro hmem
    -- Only this half needs the order: the first child under `c` is the only one.
    cases hfound : kids.lookup c with
    | none =>
      have hne := List.lookup_eq_none_iff.mp hfound (c, a) hmem
      simp at hne
    | some b => rw [h.unique (mem_of_lookup hfound) hmem]

/-- Children in rising order are known by their members. -/
theorem Ascending.eq_of_mem_iff {kids kids' : Children α}
    (h : kids.Ascending) (h' : kids'.Ascending) (hmem : ∀ e, e ∈ kids ↔ e ∈ kids') :
    kids = kids' := by
  have : Std.Antisymm fun a b : Char × α => a.1 < b.1 :=
    ⟨fun _ _ hlt hgt => (Char.lt_irrefl _ (Char.lt_trans hlt hgt)).elim⟩
  have : Std.Irrefl fun a b : Char × α => a.1 < b.1 := ⟨fun _ => Char.lt_irrefl _⟩
  exact List.Pairwise.eq_of_mem_iff h h' hmem

/-- Children in rising order are known by what is found under each label. -/
theorem Ascending.eq_of_lookup {kids kids' : Children α} (h : kids.Ascending)
    (h' : kids'.Ascending) (hlookup : ∀ c, kids.lookup c = kids'.lookup c) : kids = kids' := by
  refine h.eq_of_mem_iff h' fun ⟨c, a⟩ => ?_
  rw [← lookup_eq_some_iff h, ← lookup_eq_some_iff h', hlookup c]

/-- A member of `upsert f c kids` is an old child, or what `f` makes of what was under `c`. -/
theorem mem_upsert {f : Option α → α} {c : Char} {kids : Children α} {e : Char × α}
    (he : e ∈ upsert f c kids) :
    e ∈ kids ∨ e = (c, f none) ∨ ∃ a, (c, a) ∈ kids ∧ e = (c, f (some a)) := by
  -- The cases are those of `upsert`: `c` comes before the head, is its label, or comes after it.
  induction kids with
  | nil =>
    rw [upsert, List.mem_singleton] at he
    exact Or.inr (Or.inl he)
  | cons head rest ih =>
    obtain ⟨k, a⟩ := head
    rw [upsert] at he
    split at he
    · rcases List.mem_cons.mp he with rfl | he
      · exact Or.inr (Or.inl rfl)
      · exact Or.inl he
    · split at he
      · next hk =>
        subst hk
        rcases List.mem_cons.mp he with rfl | he
        · exact Or.inr (Or.inr ⟨a, List.mem_cons_self, rfl⟩)
        · exact Or.inl (List.mem_cons_of_mem _ he)
      · rcases List.mem_cons.mp he with rfl | he
        · exact Or.inl List.mem_cons_self
        · rcases ih he with h | h | ⟨b, hb, h⟩
          · exact Or.inl (List.mem_cons_of_mem _ h)
          · exact Or.inr (Or.inl h)
          · exact Or.inr (Or.inr ⟨b, List.mem_cons_of_mem _ hb, h⟩)

/-- Look-up where every child is rewritten by `f`. -/
theorem lookup_map (f : α → β) (kids : Children α) (c : Char) :
    (kids.map fun e => (e.1, f e.2)).lookup c = (kids.lookup c).map f := by
  induction kids with
  | nil => rfl
  | cons head rest ih =>
    rw [List.map_cons, List.lookup_cons, List.lookup_cons, ih]
    cases c == head.1 <;> rfl

/-- Look-up where every child is rewritten by `f` and only those that pass `p` then remain. -/
theorem lookup_map_filter {kids : Children α} (h : Ascending kids) (f : α → β) (p : β → Bool)
    (c : Char) :
    ((kids.map fun e => (e.1, f e.2)).filter fun e => p e.2).lookup c =
      ((kids.lookup c).map f).filter p := by
  -- Both sides look up in rising children, so membership decides them.
  have hasc := (h.map fun e => f e.2).filter fun e => p e.2
  refine Option.ext fun b => ?_
  rw [lookup_eq_some_iff hasc, Option.filter_eq_some_iff, Option.map_eq_some_iff]
  simp only [List.mem_filter, List.mem_map, Prod.mk.injEq, lookup_eq_some_iff h]
  constructor
  · rintro ⟨⟨⟨k, a⟩, hmem, rfl, rfl⟩, hp⟩
    exact ⟨⟨a, hmem, rfl⟩, hp⟩
  · rintro ⟨⟨a, hmem, rfl⟩, hp⟩
    exact ⟨⟨(c, a), hmem, rfl, rfl⟩, hp⟩

/-- A label above all others goes to the end. -/
theorem upsert_last {f : Option α → α} {c : Char} {kids : Children α}
    (h : ∀ e ∈ kids, e.1 < c) : upsert f c kids = kids ++ [(c, f none)] := by
  induction kids with
  | nil => rfl
  | cons head rest ih =>
    obtain ⟨k, a⟩ := head
    have hlt : k < c := h (k, a) List.mem_cons_self
    have hne : c ≠ k := fun heq => Char.lt_irrefl k (heq ▸ hlt)
    have hnlt : ¬c < k := fun hgt => Char.lt_irrefl k (Char.lt_trans hlt hgt)
    rw [upsert, if_neg hnlt, if_neg hne, ih fun e he => h e (List.mem_cons_of_mem _ he)]
    rfl

/-! ## Around a label -/

/-- Children with labels before `c`, and children with labels after it. -/
structure Around (c : Char) (l r : Children α) : Prop where
  before : ∀ e ∈ l, e.1 < c
  after : ∀ e ∈ r, c < e.1

/-- Children in rising order are those before a label, the one under it if there is one, and those
after it. -/
theorem Ascending.exists_around {kids : Children α} (h : Ascending kids) (c : Char) :
    ∃ l r, Around c l r ∧ (kids = l ++ r ∨ ∃ a, kids = l ++ (c, a) :: r) := by
  induction kids with
  | nil => exact ⟨[], [], ⟨nofun, nofun⟩, Or.inl rfl⟩
  | cons head rest ih =>
    obtain ⟨k, a⟩ := head
    obtain ⟨hhead, hrest⟩ := List.pairwise_cons.mp h
    rcases Std.lt_trichotomy k c with hlt | rfl | hgt
    · obtain ⟨l, r, ⟨hl, hr⟩, hkids⟩ := ih hrest
      refine ⟨(k, a) :: l, r, ⟨List.forall_mem_cons.mpr ⟨hlt, hl⟩, hr⟩, ?_⟩
      rcases hkids with rfl | ⟨b, rfl⟩
      · exact Or.inl rfl
      · exact Or.inr ⟨b, rfl⟩
    · exact ⟨[], rest, ⟨nofun, hhead⟩, Or.inr ⟨a, rfl⟩⟩
    · refine ⟨[], (k, a) :: rest, ⟨nofun, fun e he => ?_⟩, Or.inl rfl⟩
      rcases List.mem_cons.mp he with rfl | he
      · exact hgt
      · exact Char.lt_trans hgt (hhead e he)

theorem Ascending.around {l r : Children α} {c : Char} {a : α}
    (h : Ascending (l ++ (c, a) :: r)) : Around c l r := by
  obtain ⟨-, hafter, hless⟩ := List.pairwise_append.mp h
  exact ⟨fun e he => hless e he _ List.mem_cons_self, (List.pairwise_cons.mp hafter).1⟩

namespace Around

variable {c : Char} {l r : Children α}

theorem map (h : Around c l r) (f : α → β) :
    Around c (l.map fun e => (e.1, f e.2)) (r.map fun e => (e.1, f e.2)) := by
  refine ⟨fun e he => ?_, fun e he => ?_⟩
  · obtain ⟨e', he', rfl⟩ := List.mem_map.mp he
    exact h.before e' he'
  · obtain ⟨e', he', rfl⟩ := List.mem_map.mp he
    exact h.after e' he'

theorem ne_of_mem (h : Around c l r) {e : Char × α} (he : e ∈ l ++ r) : e.1 ≠ c := by
  rcases List.mem_append.mp he with he | he
  · exact Char.ne_of_lt (h.before e he)
  · exact (Char.ne_of_lt (h.after e he)).symm

theorem lookup_append (h : Around c l r) : (l ++ r).lookup c = none :=
  List.lookup_eq_none_iff.mpr fun e he => by simpa using (h.ne_of_mem he).symm

theorem lookup_append_cons (h : Around c l r) (a : α) : (l ++ (c, a) :: r).lookup c = some a := by
  have hl : l.lookup c = none :=
    List.lookup_eq_none_iff.mpr fun e he => by
      simpa using (h.ne_of_mem (List.mem_append_left r he)).symm
  rw [List.lookup_append, hl, List.lookup_cons_self]
  rfl

/-- What is put under a label that comes after some children goes after them. -/
theorem upsert_append_left {l : Children α} (hl : ∀ e ∈ l, e.1 < c) (f : Option α → α)
    (r : Children α) : upsert f c (l ++ r) = l ++ upsert f c r := by
  induction l with
  | nil => rfl
  | cons head rest ih =>
    obtain ⟨k, a⟩ := head
    have hlt : k < c := hl (k, a) List.mem_cons_self
    have hne : c ≠ k := (Char.ne_of_lt hlt).symm
    rw [List.cons_append, upsert, if_neg (Char.lt_asymm hlt), if_neg hne,
      ih fun e he => hl e (List.mem_cons_of_mem _ he)]
    rfl

theorem upsert_append (h : Around c l r) (f : Option α → α) :
    upsert f c (l ++ r) = l ++ (c, f none) :: r := by
  rw [upsert_append_left h.before]
  cases r with
  | nil => rfl
  | cons head rest => rw [upsert, if_pos (h.after head List.mem_cons_self)]

theorem upsert_append_cons (h : Around c l r) (f : Option α → α) (a : α) :
    upsert f c (l ++ (c, a) :: r) = l ++ (c, f (some a)) :: r := by
  rw [upsert_append_left h.before, upsert, if_neg (Char.lt_irrefl c), if_pos rfl]

theorem erase_append_cons (h : Around c l r) (a : α) : erase c (l ++ (c, a) :: r) = l ++ r := by
  have hfilter : (l ++ r).filter (fun e => e.1 != c) = l ++ r :=
    List.filter_eq_self.mpr fun e he => by simpa using h.ne_of_mem he
  rw [List.filter_append] at hfilter
  rw [erase, List.filter_append, List.filter_cons_of_neg (by simp), hfilter]

end Around

end Children

end Concordance
