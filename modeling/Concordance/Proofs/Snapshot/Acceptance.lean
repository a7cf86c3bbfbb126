import Concordance.Proofs.Snapshot.Schema
import Concordance.Proofs.Trie.Paths

/-!
# What snapshots are accepted

A JSON value is accepted as a snapshot exactly when it is a well-labelled record (`IsRecord`): its
parts are there and have the right shape, and the label of each record below it is its key.
An accepted value describes its index (`Describes`): the nodes of the index are the records that
paths through the value lead to (`follow`), and each node holds the documents of its record, every
document once.

`ofJson_eq_ok_iff` is the theorem. Reading and checking are apart in the program: a record is read
whatever its labels are, and these are compared only then.
-/

namespace Concordance.Snapshot

open Json

/-- A record value with a label, whose records below it have the labels of their keys. -/
inductive IsRecord : Option Char → Json → Prop where
  | leaf {label : Option Char} {v : Json} {p : Parts} (parts : parts? v = some p)
      (isLabel : IsLabel p.label label) (isIds : ∃ ids, IsIds p.ids ids)
      (children : p.children = none) : IsRecord label v
  | inner {label : Option Char} {v : Json} {p : Parts} (parts : parts? v = some p)
      (isLabel : IsLabel p.label label) (isIds : ∃ ids, IsIds p.ids ids)
      {members : List (String × Json)} (children : p.children = some (.object members))
      (keys : ∀ m ∈ members, ∃ c, m.1 = String.singleton c)
      (within : ∀ c w, (String.singleton c, w) ∈ members → IsRecord (some c) w) :
      IsRecord label v

/-- What stands below a value under the key of a character. -/
def child? (v : Json) (c : Char) : Option Json := do
  (← (← parts? v).children).member? (String.singleton c)

/-- The value that some characters lead to. -/
def follow : Json → List Char → Option Json
  | v, [] => some v
  | v, c :: cs => do follow (← child? v c) cs

/-- A value and the index that it describes. -/
structure Describes (v : Json) (t : Trie) : Prop where
  contains_iff : ∀ word, t.contains word = true ↔ (follow v word.toList).isSome = true
  lookup?_eq : ∀ word w, follow v word.toList = some w →
    ∃ p ids, parts? w = some p ∧ IsIds p.ids ids ∧ t.lookup? word = some ids.eraseDups
  nodeCount_eq : ∃ ps : List (List Char), ps.Nodup ∧
    (∀ cs, cs ∈ ps ↔ (follow v cs).isSome = true) ∧ t.nodeCount = ps.length

/-! ## The value of a record, and the record -/

theorem distinct_of_parts? {v : Json} (hv : v.Distinct) {p : Parts} (hp : parts? v = some p)
    {w : Json} (hw : p.children = some w) : w.Distinct := by
  cases hv with
  | object hkeys hwithin =>
    obtain ⟨_, _, hchildren⟩ := parts?_object.mp hp
    have hmem := (lookup_eq_some_iff hkeys).mp (hchildren.trans hw)
    exact hwithin ("children", w) hmem
  | array hwithin =>
    obtain ⟨_, _, _, hchildren⟩ := parts?_array.mp hp
    exact hwithin w (List.mem_of_getElem? (hchildren.trans hw))
  | null | bool _ | number _ | text _ => cases hp

/-- A record that is read is described by its value, if no character is misplaced below it. -/
theorem isRecord_of_readRecord {v : Json} (hv : v.Distinct) {r : Record}
    (hr : readRecord (.ofJson v) = .ok r) (hbelow : r.mislabelledBelow? = none) :
    IsRecord r.label v := by
  induction r using Record.induction generalizing v with
  | node label ids kids ih =>
    obtain ⟨p, hp, hlabel, hids, hkids⟩ := (readRecord_ofJson_iff hv).mp hr
    cases hchildren : p.children with
    | none => exact .leaf hp hlabel ⟨ids, hids⟩ hchildren
    | some w =>
      rw [hchildren] at hkids
      obtain ⟨members, rfl, hread⟩ := readChildren_ofJson_iff.mp hkids
      cases distinct_of_parts? hv hp hchildren with
      | object hdistinct hwithin =>
        obtain ⟨hkeys, _⟩ := readBelow_spec hdistinct List.Pairwise.nil hread
        refine .inner hp hlabel ⟨ids, hids⟩ hchildren hkeys fun c w hmem => ?_
        obtain ⟨r, hr, hkid⟩ := exists_kid_of_member hdistinct hread hmem
        obtain ⟨hkey, hrest⟩ := Record.mislabelledBelow?_eq_none_iff.mp hbelow (c, r) hkid
        rw [← hkey]
        exact ih (c, r) hkid (hwithin _ hmem) hr hrest

/-- The record of a value is read from it, and no character is misplaced below it. -/
theorem IsRecord.exists_readRecord {label : Option Char} {v : Json} (h : IsRecord label v)
    (hv : v.Distinct) :
    ∃ r, readRecord (.ofJson v) = .ok r ∧ r.label = label ∧ r.mislabelledBelow? = none := by
  induction h with
  | @leaf label v p hp hlabel hids hchildren =>
    obtain ⟨ids, hids⟩ := hids
    have hkids : ChildrenRead p.children [] := by rw [hchildren, ChildrenRead]
    exact ⟨.node label ids [], (readRecord_ofJson_iff hv).mpr ⟨p, hp, hlabel, hids, hkids⟩, rfl,
      Record.mislabelledBelow?_eq_none_iff.mpr nofun⟩
  | @inner label v p hp hlabel hids members hchildren hkeys hwithin ih =>
    obtain ⟨ids, hids⟩ := hids
    cases distinct_of_parts? hv hp hchildren with
    | object hdistinct hbelow =>
      have hmembers : ∀ m ∈ members, ∃ c r,
          m.1 = String.singleton c ∧ readRecord (.ofJson m.2) = .ok r := by
        rintro ⟨key, w⟩ hm
        obtain ⟨c, rfl⟩ := hkeys _ hm
        obtain ⟨r, hr, _⟩ := ih c w hm (hbelow _ hm)
        exact ⟨c, r, rfl, hr⟩
      obtain ⟨kids, hread⟩ := exists_readBelow hmembers []
      have hkids : ChildrenRead p.children kids := by
        rw [hchildren, ChildrenRead]
        exact readChildren_ofJson_iff.mpr ⟨members, rfl, hread⟩
      refine ⟨.node label ids kids, (readRecord_ofJson_iff hv).mpr ⟨p, hp, hlabel, hids, hkids⟩,
        rfl, Record.mislabelledBelow?_eq_none_iff.mpr ?_⟩
      rintro ⟨c, r⟩ hkid
      -- The record comes from the member with its key, whose label is the key.
      obtain ⟨w, hm, hr⟩ := exists_member_of_kid hdistinct hread hkid
      obtain ⟨r', hr', hkey, hrest⟩ := ih c w hm (hbelow _ hm)
      rw [hr] at hr'
      cases hr'
      exact ⟨hkey, hrest⟩

/-! ## The paths of a value -/

theorem lookup_stripAll (kids : List (Char × Record)) (c : Char) :
    (Record.stripAll kids).lookup c = (kids.lookup c).map Record.strip := by
  induction kids with
  | nil => rfl
  | cons head rest ih =>
    obtain ⟨k, r⟩ := head
    rw [Record.stripAll, List.lookup_cons, List.lookup_cons, ih]
    cases c == k <;> rfl

/-- A value has a record below it under the characters under which its record has. -/
theorem child?_spec {v : Json} (hv : v.Distinct) {label : Option Char} {ids : List DocId}
    {kids : List (Char × Record)} (hr : readRecord (.ofJson v) = .ok (.node label ids kids))
    (c : Char) :
    match child? v c with
    | none => kids.lookup c = none
    | some w => w.Distinct ∧ ∃ r, readRecord (.ofJson w) = .ok r ∧ kids.lookup c = some r := by
  obtain ⟨p, hp, _, _, hkids⟩ := (readRecord_ofJson_iff hv).mp hr
  have hchild : child? v c = p.children.bind (·.member? (String.singleton c)) := by
    rw [child?, hp]
    rfl
  rw [hchild]
  cases hchildren : p.children with
  | none =>
    rw [hchildren, ChildrenRead] at hkids
    subst hkids
    rfl
  | some w =>
    rw [hchildren] at hkids
    obtain ⟨members, rfl, hread⟩ := readChildren_ofJson_iff.mp hkids
    cases distinct_of_parts? hv hp hchildren with
    | object hdistinct hwithin =>
      obtain ⟨_, hlookup⟩ := readBelow_spec hdistinct List.Pairwise.nil hread
      have hc := hlookup c
      show match members.lookup (String.singleton c) with
        | none => kids.lookup c = none
        | some w => w.Distinct ∧ ∃ r, readRecord (.ofJson w) = .ok r ∧ kids.lookup c = some r
      cases hmember : members.lookup (String.singleton c) with
      | none =>
        rw [hmember] at hc
        exact hc
      | some w =>
        rw [hmember] at hc
        exact ⟨hwithin _ ((lookup_eq_some_iff hdistinct).mp hmember), hc⟩

/-- **Where a path leads.** It leads nowhere in a value and in its index, or to a record in the
value and to its node in the index. -/
theorem follow_spec {v : Json} (hv : v.Distinct) {r : Record}
    (hr : readRecord (.ofJson v) = .ok r) (cs : List Char) :
    match follow v cs with
    | none => r.strip.find? cs = none
    | some w => w.Distinct ∧ ∃ r', readRecord (.ofJson w) = .ok r' ∧
        r.strip.find? cs = some r'.strip := by
  induction cs generalizing v r with
  | nil => exact ⟨hv, r, hr, Trie.find?_nil _⟩
  | cons c cs ih =>
    obtain ⟨label, ids, kids⟩ := r
    have hfind : (Record.node label ids kids).strip.find? (c :: cs) =
        (kids.lookup c).bind fun r => r.strip.find? cs := by
      rw [Record.strip, Trie.find?_cons, lookup_stripAll, Option.bind_map]
      rfl
    have hchild := child?_spec hv hr c
    rw [hfind, follow]
    cases hc : child? v c with
    | none =>
      rw [hc] at hchild
      rw [hchild]
      rfl
    | some w =>
      rw [hc] at hchild
      obtain ⟨hw, r', hr', hkid⟩ := hchild
      rw [hkid]
      exact ih hw hr'

theorem isSome_find?_iff_follow {v : Json} (hv : v.Distinct) {r : Record}
    (hr : readRecord (.ofJson v) = .ok r) (cs : List Char) :
    (r.strip.find? cs).isSome = true ↔ (follow v cs).isSome = true := by
  have hpath := follow_spec hv hr cs
  cases hfollow : follow v cs with
  | none =>
    rw [hfollow] at hpath
    simp [hpath]
  | some w =>
    rw [hfollow] at hpath
    obtain ⟨_, r', _, hfind⟩ := hpath
    rw [hfind]
    rfl

/-- A value describes the index of its record. -/
theorem describes_of_readRecord {v : Json} (hv : v.Distinct) {r : Record}
    (hr : readRecord (.ofJson v) = .ok r) : Describes v r.strip where
  contains_iff word := isSome_find?_iff_follow hv hr word.toList
  lookup?_eq := by
    intro word w hw
    have hpath := follow_spec hv hr word.toList
    rw [hw] at hpath
    obtain ⟨hdistinct, ⟨label, ids, kids⟩, hr', hfind⟩ := hpath
    obtain ⟨p, hp, _, hids, _⟩ := (readRecord_ofJson_iff hdistinct).mp hr'
    refine ⟨p, ids, hp, hids, ?_⟩
    rw [Trie.lookup?, hfind, Option.map_some, Record.strip, Trie.ids,
      Trie.distinctIds_eq_eraseDups]
  nodeCount_eq := by
    have hwell : r.strip.WellFormed := (ordered_readRecord _ _ hr).wellFormed_strip
    refine ⟨r.strip.paths, Trie.nodup_paths hwell, fun cs => ?_, Trie.nodeCount_eq _⟩
    rw [Trie.mem_paths hwell]
    exact isSome_find?_iff_follow hv hr cs

/-! ## The index of a value -/

theorem ofJson_eq_ok_iff {v : Json} {t : Trie} :
    ofJson v = .ok t ↔ ∃ r, readRecord (.ofJson v) = .ok r ∧
      r.label = none ∧ r.mislabelledBelow? = none ∧ t = r.strip := by
  rw [ofJson]
  cases readRecord (.ofJson v) with
  | error fault => simp
  | ok r =>
    simp only [Except.ok.injEq, exists_eq_left', ← Record.toTrie_eq_ok_iff, ofRecord]
    cases r.toTrie <;> simp

/-- A value is refused for its shape or for a label. -/
theorem ofJson_eq_error {v : Json} (h : ∀ t, ofJson v ≠ .ok t) :
    (∃ fault, ofJson v = .error (.malformed fault)) ∨ ∃ m, ofJson v = .error (.mislabelled m) := by
  rw [ofJson] at h ⊢
  cases hr : readRecord (.ofJson v) with
  | error fault => exact .inl ⟨.data, rfl⟩
  | ok r =>
    simp only [hr, ofRecord] at h ⊢
    cases htrie : r.toTrie with
    | error m => exact .inr ⟨m, rfl⟩
    | ok t => exact absurd (by rw [htrie]) (h t)

/-- **Acceptance.** A JSON value is accepted exactly when it is a well-labelled record whose root
has no label, and it describes its index then. Every other value is refused, for its shape or for
a label. -/
theorem exists_ofJson_iff_isRecord {v : Json} (hv : v.Distinct) :
    ((∃ t, ofJson v = .ok t) ↔ IsRecord none v) ∧
      (∀ t, ofJson v = .ok t → Describes v t) ∧
      (¬IsRecord none v → (∃ fault, ofJson v = .error (.malformed fault)) ∨
        ∃ m, ofJson v = .error (.mislabelled m)) := by
  have hrecord {t : Trie} (h : ofJson v = .ok t) : IsRecord none v := by
    obtain ⟨r, hr, hlabel, hbelow, _⟩ := ofJson_eq_ok_iff.mp h
    rw [← hlabel]
    exact isRecord_of_readRecord hv hr hbelow
  refine ⟨⟨fun ⟨t, h⟩ => hrecord h, fun h => ?_⟩, fun t h => ?_, fun h => ?_⟩
  · obtain ⟨r, hr, hlabel, hbelow⟩ := h.exists_readRecord hv
    exact ⟨r.strip, ofJson_eq_ok_iff.mpr ⟨r, hr, hlabel, hbelow, rfl⟩⟩
  · obtain ⟨r, hr, _, _, rfl⟩ := ofJson_eq_ok_iff.mp h
    exact describes_of_readRecord hv hr
  · exact ofJson_eq_error fun t ht => h (hrecord ht)

/-- A value with other members, an array for a record, and a document that comes twice. -/
theorem exists_ofJson_iff_isRecord_mixed :
    let v : Json := .object [("note", .object [("char", .bool true)]), ("doc_ids", .array []),
      ("char", .null), ("children", .object [("a", .array [.text "a", .array
        [.number "7", .number "4294967295", .number "7"]])])]
    v.Distinct ∧ IsRecord none v ∧
      (∀ t, ofJson v = .ok t → Describes v t) ∧
      ofJson v = .ok (.node [] [('a', .node [7, 4294967295] [])]) := by
  intro v
  have hchild : (Json.array [.text "a", .array
      [.number "7", .number "4294967295", .number "7"]]).Distinct := by
    refine .array (List.forall_mem_cons.mpr ⟨.text _, List.forall_mem_singleton.mpr (.array ?_)⟩)
    simp [Distinct.number]
  have hv : v.Distinct := by
    refine .object (by decide) ?_
    simp only [List.forall_mem_cons]
    refine ⟨.object (by decide) ?_, .array nofun, .null, .object (by decide) ?_, nofun⟩
    · exact List.forall_mem_singleton.mpr (.bool true)
    · exact List.forall_mem_singleton.mpr hchild
  obtain ⟨haccepted, hdescribes, _⟩ := exists_ofJson_iff_isRecord hv
  have hload : ofJson v = .ok (.node [] [('a', .node [7, 4294967295] [])]) := by rfl
  exact ⟨hv, haccepted.mp ⟨_, hload⟩, hdescribes, hload⟩

end Concordance.Snapshot
