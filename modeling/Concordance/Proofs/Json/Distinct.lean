import Concordance.Proofs.Json.Tokens

/-!
# Objects without repeated keys

A JSON value in which no key comes twice in an object (`Json.Distinct`). There a member is found
under its key (`lookup_eq_some_iff`), wherever it stands among the others: values that differ only
in the order of such members (`Json.Rearranged`) have the same, rearranged, under each key
(`rel_lookup`) and at each place (`rel_getElem?`).
-/

namespace Concordance

namespace Json

/-- No key comes twice in an object. -/
inductive Distinct : Json → Prop where
  | null : Distinct .null
  | bool (b : Bool) : Distinct (.bool b)
  | number (literal : String) : Distinct (.number literal)
  | text (s : String) : Distinct (.text s)
  | array {items : List Json} (within : ∀ v ∈ items, Distinct v) : Distinct (.array items)
  | object {members : List (String × Json)} (keys : (members.map Prod.fst).Nodup)
      (within : ∀ m ∈ members, Distinct m.2) : Distinct (.object members)

theorem lookup_eq_none {α : Type} {members : List (String × α)} {key : String}
    (h : key ∉ members.map Prod.fst) : members.lookup key = none := by
  rw [List.lookup_eq_none_iff]
  intro m hm
  have hne : key ≠ m.1 := fun heq => h (List.mem_map.mpr ⟨m, hm, heq.symm⟩)
  simpa using hne

theorem lookup_cons_of_ne {α : Type} {members : List (String × α)} {key other : String} {v : α}
    (h : other ≠ key) : ((key, v) :: members).lookup other = members.lookup other := by
  have hbeq : (other == key) = false := by simpa using h
  rw [List.lookup_cons, hbeq]

/-- Where no key comes twice, a member is found under its key. -/
theorem lookup_eq_some_iff {α : Type} {members : List (String × α)}
    (h : (members.map Prod.fst).Nodup) {key : String} {v : α} :
    members.lookup key = some v ↔ (key, v) ∈ members := by
  induction members with
  | nil => simp
  | cons head rest ih =>
    obtain ⟨k, w⟩ := head
    obtain ⟨hk, hrest⟩ := List.nodup_cons.mp h
    rw [List.mem_cons, Prod.mk.injEq]
    by_cases heq : key = k
    · subst heq
      rw [List.lookup_cons_self]
      have hnone : (key, v) ∉ rest := fun hmem => hk (List.mem_map.mpr ⟨(key, v), hmem, rfl⟩)
      simp [hnone, eq_comm]
    · rw [lookup_cons_of_ne heq, ih hrest]
      simp [heq]

/-! ## The order of the members -/

/-- The same value, but for the order in which the members of its objects stand. -/
inductive Rearranged : Json → Json → Prop where
  | null : Rearranged .null .null
  | bool (b : Bool) : Rearranged (.bool b) (.bool b)
  | number (literal : String) : Rearranged (.number literal) (.number literal)
  | text (s : String) : Rearranged (.text s) (.text s)
  | array {items items' : List Json} (length : items.length = items'.length)
      (within : ∀ (i : Nat) v v', items[i]? = some v → items'[i]? = some v' → Rearranged v v') :
      Rearranged (.array items) (.array items')
  | object {members members' : List (String × Json)}
      (keys : (members.map Prod.fst).Perm (members'.map Prod.fst))
      (within : ∀ k v v', (k, v) ∈ members → (k, v') ∈ members' → Rearranged v v') :
      Rearranged (.object members) (.object members')

/-- A member with a key, where members have the same keys as others. -/
theorem exists_member_of_perm {members members' : List (String × Json)}
    (keys : (members.map Prod.fst).Perm (members'.map Prod.fst)) {k : String} {v : Json}
    (h : (k, v) ∈ members) : ∃ v', (k, v') ∈ members' := by
  obtain ⟨⟨_, v'⟩, hmem, rfl⟩ := List.mem_map.mp (keys.mem_iff.mp (List.mem_map_of_mem h))
  exact ⟨v', hmem⟩

/-- An item at a place, where there are as many items as others. -/
theorem exists_item_of_length {items items' : List Json} (length : items.length = items'.length)
    {i : Nat} {v : Json} (h : items[i]? = some v) : ∃ v', items'[i]? = some v' := by
  have hi : i < items'.length := by
    rw [← length]
    exact (List.getElem?_eq_some_iff.mp h).1
  exact ⟨items'[i], List.getElem?_eq_getElem hi⟩

/-- Where no key comes twice, only one member has a key. -/
theorem eq_of_mem {α : Type} {members : List (String × α)} (h : (members.map Prod.fst).Nodup)
    {k : String} {v v' : α} (hv : (k, v) ∈ members) (hv' : (k, v') ∈ members) : v = v' := by
  have hlookup := (lookup_eq_some_iff h).mpr hv
  rw [(lookup_eq_some_iff h).mpr hv'] at hlookup
  cases hlookup
  rfl

namespace Rearranged

theorem refl {v : Json} (h : v.Distinct) : Rearranged v v := by
  induction h with
  | null => exact .null
  | bool b => exact .bool b
  | number literal => exact .number literal
  | text s => exact .text s
  | array _ ih =>
    refine .array rfl fun i v v' hv hv' => ?_
    rw [hv] at hv'
    cases hv'
    exact ih v (List.mem_of_getElem? hv)
  | object keys _ ih =>
    refine .object (.refl _) fun k v v' hv hv' => ?_
    rw [← eq_of_mem keys hv hv']
    exact ih (k, v) hv

/-- The members of an object in another order. -/
theorem ofPerm {members members' : List (String × Json)} (h : (Json.object members).Distinct)
    (hperm : members.Perm members') : Rearranged (.object members) (.object members') := by
  cases h with
  | object keys within =>
    refine .object (hperm.map Prod.fst) fun k v v' hv hv' => ?_
    rw [← eq_of_mem keys hv (hperm.mem_iff.mpr hv')]
    exact .refl (within (k, v) hv)

theorem symm {v w : Json} (h : Rearranged v w) : Rearranged w v := by
  induction h with
  | null => exact .null
  | bool b => exact .bool b
  | number literal => exact .number literal
  | text s => exact .text s
  | array length _ ih => exact .array length.symm fun i v v' hv hv' => ih i v' v hv' hv
  | object keys _ ih => exact .object keys.symm fun k v v' hv hv' => ih k v' v hv' hv

theorem distinct {v w : Json} (h : Rearranged v w) (hv : v.Distinct) : w.Distinct := by
  induction h with
  | null | bool _ | number _ | text _ => exact hv
  | array length _ ih =>
    cases hv with
    | array hwithin =>
      refine .array fun v' hv' => ?_
      obtain ⟨i, hi⟩ := List.mem_iff_getElem?.mp hv'
      obtain ⟨v, hv⟩ := exists_item_of_length length.symm hi
      exact ih i v v' hv hi (hwithin v (List.mem_of_getElem? hv))
  | object keys _ ih =>
    cases hv with
    | object hkeys hwithin =>
      refine .object (keys.nodup_iff.mp hkeys) fun m hm => ?_
      obtain ⟨v, hv⟩ := exists_member_of_perm keys.symm hm
      exact ih m.1 v m.2 hv hm (hwithin _ hv)

theorem wellFormed {v w : Json} (h : Rearranged v w) (hv : v.WellFormed) : w.WellFormed := by
  induction h with
  | null | bool _ | number _ | text _ => exact hv
  | array length _ ih =>
    cases hv with
    | array hwithin =>
      refine .array fun v' hv' => ?_
      obtain ⟨i, hi⟩ := List.mem_iff_getElem?.mp hv'
      obtain ⟨v, hv⟩ := exists_item_of_length length.symm hi
      exact ih i v v' hv hi (hwithin v (List.mem_of_getElem? hv))
  | object keys _ ih =>
    cases hv with
    | object hwithin =>
      refine .object fun m hm => ?_
      obtain ⟨v, hv⟩ := exists_member_of_perm keys.symm hm
      exact ih m.1 v m.2 hv hm (hwithin _ hv)

end Rearranged

/-- Where no key comes twice, rearranged members have the same under each key, rearranged. -/
theorem rel_lookup {members members' : List (String × Json)}
    (keys : (members.map Prod.fst).Perm (members'.map Prod.fst))
    (within : ∀ k v v', (k, v) ∈ members → (k, v') ∈ members' → Rearranged v v')
    (hdistinct : (members.map Prod.fst).Nodup) (key : String) :
    Option.Rel Rearranged (members.lookup key) (members'.lookup key) := by
  have hdistinct' : (members'.map Prod.fst).Nodup := keys.nodup_iff.mp hdistinct
  cases hlookup : members.lookup key with
  | some v =>
    have hmem := (lookup_eq_some_iff hdistinct).mp hlookup
    obtain ⟨v', hmem'⟩ := exists_member_of_perm keys hmem
    rw [(lookup_eq_some_iff hdistinct').mpr hmem']
    exact .some (within key v v' hmem hmem')
  | none =>
    cases hlookup' : members'.lookup key with
    | none => exact .none
    | some v' =>
      obtain ⟨v, hmem⟩ :=
        exists_member_of_perm keys.symm ((lookup_eq_some_iff hdistinct').mp hlookup')
      rw [(lookup_eq_some_iff hdistinct).mpr hmem] at hlookup
      cases hlookup

/-- Rearranged items have the same at each place, rearranged. -/
theorem rel_getElem? {items items' : List Json} (length : items.length = items'.length)
    (within : ∀ (i : Nat) v v', items[i]? = some v → items'[i]? = some v' → Rearranged v v')
    (i : Nat) : Option.Rel Rearranged items[i]? items'[i]? := by
  cases hitem : items[i]? with
  | some v =>
    obtain ⟨v', hitem'⟩ := exists_item_of_length length hitem
    rw [hitem']
    exact .some (within i v v' hitem hitem')
  | none =>
    have hitem' : items'[i]? = none := by
      rw [List.getElem?_eq_none_iff, ← length]
      exact List.getElem?_eq_none_iff.mp hitem
    rw [hitem']
    exact .none

theorem exists_of_rel_some {α : Type} {R : α → α → Prop} {a : α} {x : Option α}
    (h : Option.Rel R (some a) x) : ∃ b, x = some b ∧ R a b := by
  cases h with
  | some h => exact ⟨_, rfl, h⟩

end Json

end Concordance
