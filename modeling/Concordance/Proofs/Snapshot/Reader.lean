import Concordance.Proofs.Snapshot.Record

/-!
# Reading records

Whatever a document is, a record that is read from it is ordered (`ordered_readRecord`), since
each child is put in its place among the keys. So every accepted snapshot gives a well-formed
index, from a text (`wellFormed_ofText`) as well as from a JSON value (`wellFormed_ofJson`).
-/

namespace Concordance

/-- A sequence of two steps succeeds when both do. -/
theorem bind_eq_ok_iff {ε α β : Type} {x : Except ε α} {f : α → Except ε β} {b : β} :
    (x >>= f) = .ok b ↔ ∃ a, x = .ok a ∧ f a = .ok b := by
  cases x with
  | error e => exact ⟨nofun, nofun⟩
  | ok a => simp [bind, Except.bind]

theorem exists_of_bind_eq_ok {ε α β : Type} {x : Except ε α} {f : α → Except ε β} {b : β}
    (h : (x >>= f) = .ok b) : ∃ a, x = .ok a ∧ f a = .ok b :=
  bind_eq_ok_iff.mp h

open Json

namespace Snapshot

/-- Records below one that are ordered, under keys that rise strictly. -/
def OrderedAll (kids : List (Char × Record)) : Prop :=
  Children.Ascending kids ∧ ∀ e ∈ kids, e.2.Ordered

theorem OrderedAll.nil : OrderedAll [] :=
  ⟨List.Pairwise.nil, by simp⟩

/-- A record in its place under a key, also in place of another, keeps the order. -/
theorem OrderedAll.upsert {kids : List (Char × Record)} (h : OrderedAll kids) (c : Char)
    {r : Record} (hr : r.Ordered) : OrderedAll (Children.upsert (fun _ => r) c kids) := by
  refine ⟨h.1.upsert _ c, fun e he => ?_⟩
  rcases Children.mem_upsert he with he | rfl | ⟨_, _, rfl⟩
  · exact h.2 e he
  · exact hr
  · exact hr

/-- The children that have been read, if they have, are ordered. -/
def Fields.Ordered (f : Fields) : Prop :=
  ∀ kids, f.children = some kids → OrderedAll kids

theorem Fields.Ordered.record {f : Fields} (h : f.Ordered) {r : Record}
    (hr : f.record = .ok r) : r.Ordered := by
  rw [Fields.record] at hr
  split at hr
  · cases hr
    cases hkids : f.children with
    | none => exact .node OrderedAll.nil.1 OrderedAll.nil.2
    | some kids => exact .node (h kids hkids).1 (h kids hkids).2
  · cases hr

/-- A container that was cut off gives nothing; a complete one gives what was read of it. -/
theorem eq_of_closed {α : Type} {a b : α} {stop : Option Break} (h : closed a stop = .ok b) :
    a = b := by
  cases stop with
  | none => cases h; rfl
  | some why => cases h

mutual

/-- A record that is read is ordered, from an object as well as from an array of its parts. -/
theorem ordered_readRecord : (d : Draft) → (r : Record) → readRecord d = .ok r → r.Ordered
  | .object members stop, r, h => by
    rw [readRecord] at h
    obtain ⟨fields, hfields, h⟩ := exists_of_bind_eq_ok h
    obtain ⟨fields', hclosed, h⟩ := exists_of_bind_eq_ok h
    rw [← eq_of_closed hclosed] at h
    have hempty : Fields.Ordered {} := fun kids hkids => nomatch hkids
    exact (ordered_readFields members {} fields hempty hfields).record h
  | .array items stop, r, h => by
    rw [readRecord] at h
    obtain ⟨fields, hfields, h⟩ := exists_of_bind_eq_ok h
    obtain ⟨fields', hclosed, h⟩ := exists_of_bind_eq_ok h
    rw [← eq_of_closed hclosed] at h
    have hempty : Fields.Ordered {} := fun kids hkids => nomatch hkids
    exact (ordered_readParts items {} fields hempty hfields).record h
  | .null, _, h | .bool _, _, h | .number _, _, h | .text _, _, h | .missing _, _, h => by
    simp [readRecord] at h

theorem ordered_readFields : (members : List (Option (List Char) × Draft)) →
    (f f' : Fields) → f.Ordered → readFields f members = .ok f' → f'.Ordered
  | [], f, f', hf, h => by
    rw [readFields] at h
    cases h; exact hf
  | (none, _) :: _, _, _, _, h => by
    rw [readFields] at h
    cases h
  | (some key, d) :: rest, f, f', hf, h => by
    rw [readFields] at h
    split at h
    · split at h
      · cases h
      · obtain ⟨label, _, h⟩ := exists_of_bind_eq_ok h
        exact ordered_readFields rest { f with label := some label } f' hf h
    · split at h
      · split at h
        · cases h
        · obtain ⟨ids, _, h⟩ := exists_of_bind_eq_ok h
          exact ordered_readFields rest { f with ids := some ids } f' hf h
      · split at h
        · split at h
          · cases h
          · obtain ⟨kids, hkids, h⟩ := exists_of_bind_eq_ok h
            have hordered : Fields.Ordered { f with children := some kids } := by
              rintro _ ⟨rfl⟩
              exact ordered_readChildren d kids hkids
            exact ordered_readFields rest _ f' hordered h
        · split at h
          · cases h
          · exact ordered_readFields rest f f' hf h

theorem ordered_readParts : (items : List Draft) → (f f' : Fields) → f.Ordered →
    readParts f items = .ok f' → f'.Ordered
  | [], f, f', hf, h => by
    rw [readParts] at h
    cases h; exact hf
  | d :: rest, f, f', hf, h => by
    rw [readParts] at h
    split at h
    · obtain ⟨label, _, h⟩ := exists_of_bind_eq_ok h
      exact ordered_readParts rest { f with label := some label } f' hf h
    · split at h
      · obtain ⟨ids, _, h⟩ := exists_of_bind_eq_ok h
        exact ordered_readParts rest { f with ids := some ids } f' hf h
      · split at h
        · obtain ⟨kids, hkids, h⟩ := exists_of_bind_eq_ok h
          have hordered : Fields.Ordered { f with children := some kids } := by
            rintro _ ⟨rfl⟩
            exact ordered_readChildren d kids hkids
          exact ordered_readParts rest _ f' hordered h
        · cases h

theorem ordered_readChildren : (d : Draft) → (kids : List (Char × Record)) →
    readChildren d = .ok kids → OrderedAll kids
  | .object members stop, kids, h => by
    rw [readChildren] at h
    obtain ⟨kids', hkids, h⟩ := exists_of_bind_eq_ok h
    rw [← eq_of_closed h]
    exact ordered_readBelow members [] kids' .nil hkids
  | .null, _, h | .bool _, _, h | .number _, _, h | .text _, _, h | .array _ _, _, h
  | .missing _, _, h => by
    simp [readChildren] at h

theorem ordered_readBelow : (members : List (Option (List Char) × Draft)) →
    (kids kids' : List (Char × Record)) → OrderedAll kids → readBelow kids members = .ok kids' →
    OrderedAll kids'
  | [], kids, kids', hkids, h => by
    rw [readBelow] at h
    cases h; exact hkids
  | (key, d) :: rest, kids, kids', hkids, h => by
    rw [readBelow] at h
    obtain ⟨c, _, h⟩ := exists_of_bind_eq_ok h
    obtain ⟨r, hr, h⟩ := exists_of_bind_eq_ok h
    exact ordered_readBelow rest _ kids' (hkids.upsert c (ordered_readRecord d r hr)) h

end

/-- The index of an accepted text is well-formed. -/
theorem wellFormed_ofText {text : String} {t : Trie} (h : ofText text = .ok t) :
    t.WellFormed := by
  rw [ofText] at h
  split at h
  · next r hr =>
    rw [Document.read] at hr
    obtain ⟨r', hr', hr⟩ := exists_of_bind_eq_ok hr
    split at hr
    · cases hr
    · cases hr
      exact wellFormed_ofRecord (ordered_readRecord _ _ hr') h
  · cases h

/-- The index of an accepted JSON value is well-formed. -/
theorem wellFormed_ofJson {v : Json} {t : Trie} (h : ofJson v = .ok t) : t.WellFormed := by
  rw [ofJson] at h
  split at h
  · next r hr => exact wellFormed_ofRecord (ordered_readRecord _ _ hr) h
  · cases h

end Snapshot

end Concordance
