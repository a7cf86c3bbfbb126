import Concordance.Proofs.Json.Document
import Concordance.Proofs.Snapshot.Acceptance

/-!
# Reading a value and reading its text

A snapshot can be read from a JSON value and from a text of that value. The text may have the
members of its objects in any order (`Json.Rearranged`), and so the two ways meet the parts of the
records, and what is wrong with them, in different orders. They come to the same nevertheless:

* `readRecord_of_rearranged`: the order of the members makes no difference to the record.
* `exists_readRecord_iff_hasShape`: which values are records at all, whatever their labels are.

`ofText_agrees` puts them together: the same index, or the same misplaced label, or no record.
-/

namespace Concordance

open Json

namespace Snapshot

/-! ## The order of the members -/

theorem IsLabel.rearranged {v w : Json} {label : Option Char} (hv : IsLabel v label)
    (h : v.Rearranged w) : IsLabel w label := by
  cases hv with
  | null =>
    cases h
    exact .null
  | text c =>
    cases h
    exact .text c

theorem IsId.rearranged {v w : Json} {id : DocId} (hv : IsId v id) (h : v.Rearranged w) :
    IsId w id := by
  cases hv with
  | number nonempty digits value =>
    cases h
    exact .number nonempty digits value

theorem IsIds.rearranged {v w : Json} {ids : List DocId} (hv : IsIds v ids)
    (h : v.Rearranged w) : IsIds w ids := by
  obtain ⟨items, rfl, hids⟩ := hv
  cases h with
  | @array _ items' length within =>
    obtain ⟨hlength, hget⟩ := List.forall₂_iff_get.mp hids
    have hlength' : items'.length = ids.length := length ▸ hlength
    refine ⟨items', rfl, List.forall₂_iff_get.mpr ⟨hlength', fun i hi' hi => ?_⟩⟩
    have hitem : i < items.length := length ▸ hi'
    refine (hget i hitem hi).rearranged (within i _ _ ?_ ?_)
    · exact List.getElem?_eq_getElem hitem
    · exact List.getElem?_eq_getElem hi'

/-- Rearranged values have the same parts, rearranged. -/
theorem exists_parts?_of_rearranged {v w : Json} (hv : v.Distinct) (h : v.Rearranged w)
    {p : Parts} (hp : parts? v = some p) :
    ∃ q, parts? w = some q ∧ p.label.Rearranged q.label ∧ p.ids.Rearranged q.ids ∧
      Option.Rel Rearranged p.children q.children := by
  cases h with
  | object keys within =>
    cases hv with
    | object hkeys _ =>
      obtain ⟨hlabel, hids, hchildren⟩ := parts?_object.mp hp
      have hrel := rel_lookup keys within hkeys
      obtain ⟨l, hl, hlabel'⟩ := exists_of_rel_some (hlabel ▸ hrel "char")
      obtain ⟨i, hi, hids'⟩ := exists_of_rel_some (hids ▸ hrel "doc_ids")
      exact ⟨⟨l, i, _⟩, parts?_object.mpr ⟨hl, hi, rfl⟩, hlabel', hids',
        hchildren ▸ hrel "children"⟩
  | array length within =>
    obtain ⟨hlength, hlabel, hids, hchildren⟩ := parts?_array.mp hp
    have hrel := rel_getElem? length within
    obtain ⟨l, hl, hlabel'⟩ := exists_of_rel_some (hlabel ▸ hrel 0)
    obtain ⟨i, hi, hids'⟩ := exists_of_rel_some (hids ▸ hrel 1)
    exact ⟨⟨l, i, _⟩, parts?_array.mpr ⟨length ▸ hlength, hl, hi, rfl⟩, hlabel', hids',
      hchildren ▸ hrel 2⟩
  | null | bool _ | number _ | text _ => cases hp

/-- The records below one are read from rearranged members as well, if each of them is. -/
theorem readBelow_of_rearranged {members members' : List (String × Json)}
    (keys : (members.map Prod.fst).Perm (members'.map Prod.fst))
    (hdistinct : (members.map Prod.fst).Nodup) {kids : List (Char × Record)}
    (hread : readBelow [] (Draft.ofMembers members) = .ok kids)
    (hmember : ∀ c v v' r, (String.singleton c, v) ∈ members →
      (String.singleton c, v') ∈ members' → (c, r) ∈ kids → readRecord (.ofJson v) = .ok r →
        readRecord (.ofJson v') = .ok r) :
    readBelow [] (Draft.ofMembers members') = .ok kids := by
  have hdistinct' : (members'.map Prod.fst).Nodup := keys.nodup_iff.mp hdistinct
  obtain ⟨hkeys, hlookup⟩ := readBelow_spec hdistinct List.Pairwise.nil hread
  have hasc : Children.Ascending kids := (ordered_readBelow _ _ _ .nil hread).1
  obtain ⟨kids', hread'⟩ : ∃ kids', readBelow [] (Draft.ofMembers members') = .ok kids' := by
    refine exists_readBelow (fun m hm => ?_) []
    obtain ⟨key, v'⟩ := m
    obtain ⟨v, hv⟩ := exists_member_of_perm keys.symm hm
    obtain ⟨c, rfl⟩ := hkeys _ hv
    obtain ⟨r, hr, hkid⟩ := exists_kid_of_member hdistinct hread hv
    exact ⟨c, r, rfl, hmember c v v' r hv hm hkid hr⟩
  have hasc' : Children.Ascending kids' := (ordered_readBelow _ _ _ .nil hread').1
  -- Under each key both have the record of the same member, or none.
  have hsame : kids = kids' := by
    refine hasc.eq_of_lookup hasc' fun c => ?_
    cases hkid : kids.lookup c with
    | some r =>
      have hmem := Children.mem_of_lookup hkid
      obtain ⟨v, hv, hr⟩ := exists_member_of_kid hdistinct hread hmem
      obtain ⟨v', hv'⟩ := exists_member_of_perm keys hv
      obtain ⟨r', hr', hmem'⟩ := exists_kid_of_member hdistinct' hread' hv'
      rw [hmember c v v' r hv hv' hmem hr] at hr'
      cases hr'
      exact ((Children.lookup_eq_some_iff hasc').mpr hmem').symm
    | none =>
      cases hkid' : kids'.lookup c with
      | none => rfl
      | some r' =>
        obtain ⟨v', hv', _⟩ :=
          exists_member_of_kid hdistinct' hread' (Children.mem_of_lookup hkid')
        obtain ⟨v, hv⟩ := exists_member_of_perm keys.symm hv'
        obtain ⟨r, _, hmem⟩ := exists_kid_of_member hdistinct hread hv
        rw [(Children.lookup_eq_some_iff hasc).mpr hmem] at hkid
        cases hkid
  rw [hread', hsame]

/-- **The order of the members makes no difference** to the record that is read. -/
theorem readRecord_of_rearranged {v w : Json} (hv : v.Distinct) (h : v.Rearranged w) {r : Record}
    (hr : readRecord (.ofJson v) = .ok r) : readRecord (.ofJson w) = .ok r := by
  induction r using Record.induction generalizing v w with
  | node label ids kids ih =>
    obtain ⟨p, hp, hlabel, hids, hkids⟩ := (readRecord_ofJson_iff hv).mp hr
    obtain ⟨q, hq, hlabel', hids', hchildren⟩ := exists_parts?_of_rearranged hv h hp
    refine (readRecord_ofJson_iff (h.distinct hv)).mpr
      ⟨q, hq, hlabel.rearranged hlabel', hids.rearranged hids', ?_⟩
    have hwithin := fun w hw => distinct_of_parts? hv hp (w := w) hw
    revert hkids hwithin
    generalize p.children = before at hchildren
    generalize q.children = after at hchildren
    cases hchildren with
    | none => exact fun hkids _ => hkids
    | @some x y hxy =>
      intro hkids hwithin
      obtain ⟨members, rfl, hread⟩ := readChildren_ofJson_iff.mp hkids
      cases hwithin _ rfl with
      | object hkeys hdistinct =>
        cases hxy with
        | @object _ members' keys within =>
          refine readChildren_ofJson_iff.mpr ⟨members', rfl, ?_⟩
          refine readBelow_of_rearranged keys hkeys hread fun c v v' r hv hv' hmem hr => ?_
          exact ih (c, r) hmem (hdistinct _ hv) (within _ v v' hv hv') hr

/-! ## Records with any labels -/

/-- A value that is a record, whatever the labels of the records below it are. -/
inductive HasShape : Json → Prop where
  | leaf {v : Json} {p : Parts} (parts : parts? v = some p)
      (isLabel : ∃ label, IsLabel p.label label) (isIds : ∃ ids, IsIds p.ids ids)
      (children : p.children = none) : HasShape v
  | inner {v : Json} {p : Parts} (parts : parts? v = some p)
      (isLabel : ∃ label, IsLabel p.label label) (isIds : ∃ ids, IsIds p.ids ids)
      {members : List (String × Json)} (children : p.children = some (.object members))
      (keys : ∀ m ∈ members, ∃ c, m.1 = String.singleton c)
      (within : ∀ m ∈ members, HasShape m.2) : HasShape v

theorem hasShape_of_readRecord {v : Json} (hv : v.Distinct) {r : Record}
    (hr : readRecord (.ofJson v) = .ok r) : HasShape v := by
  induction r using Record.induction generalizing v with
  | node label ids kids ih =>
    obtain ⟨p, hp, hlabel, hids, hkids⟩ := (readRecord_ofJson_iff hv).mp hr
    cases hchildren : p.children with
    | none => exact .leaf hp ⟨label, hlabel⟩ ⟨ids, hids⟩ hchildren
    | some w =>
      rw [hchildren] at hkids
      obtain ⟨members, rfl, hread⟩ := readChildren_ofJson_iff.mp hkids
      cases distinct_of_parts? hv hp hchildren with
      | object hdistinct hwithin =>
        obtain ⟨hkeys, _⟩ := readBelow_spec hdistinct List.Pairwise.nil hread
        refine .inner hp ⟨label, hlabel⟩ ⟨ids, hids⟩ hchildren hkeys fun m hm => ?_
        obtain ⟨key, w⟩ := m
        obtain ⟨c, rfl⟩ := hkeys _ hm
        obtain ⟨r, hr, hkid⟩ := exists_kid_of_member hdistinct hread hm
        exact ih (c, r) hkid (hwithin _ hm) hr

theorem HasShape.exists_readRecord {v : Json} (h : HasShape v) (hv : v.Distinct) :
    ∃ r, readRecord (.ofJson v) = .ok r := by
  induction h with
  | @leaf v p hp hlabel hids hchildren =>
    obtain ⟨label, hlabel⟩ := hlabel
    obtain ⟨ids, hids⟩ := hids
    have hkids : ChildrenRead p.children [] := by rw [hchildren, ChildrenRead]
    exact ⟨_, (readRecord_ofJson_iff hv).mpr ⟨p, hp, hlabel, hids, hkids⟩⟩
  | @inner v p hp hlabel hids members hchildren hkeys _ ih =>
    obtain ⟨label, hlabel⟩ := hlabel
    obtain ⟨ids, hids⟩ := hids
    cases distinct_of_parts? hv hp hchildren with
    | object hdistinct hbelow =>
      obtain ⟨kids, hread⟩ : ∃ kids, readBelow [] (Draft.ofMembers members) = .ok kids := by
        refine exists_readBelow (fun m hm => ?_) []
        obtain ⟨c, hc⟩ := hkeys m hm
        obtain ⟨r, hr⟩ := ih m hm (hbelow m hm)
        exact ⟨c, r, hc, hr⟩
      have hkids : ChildrenRead p.children kids := by
        rw [hchildren, ChildrenRead]
        exact readChildren_ofJson_iff.mpr ⟨members, rfl, hread⟩
      exact ⟨_, (readRecord_ofJson_iff hv).mpr ⟨p, hp, hlabel, hids, hkids⟩⟩

/-- **Which values are records.** A record is read exactly from the values that have the shape of
one. -/
theorem exists_readRecord_iff_hasShape {v : Json} (hv : v.Distinct) :
    (∃ r, readRecord (.ofJson v) = .ok r) ↔ HasShape v :=
  ⟨fun ⟨_, hr⟩ => hasShape_of_readRecord hv hr, fun h => h.exists_readRecord hv⟩

/-! ## The two ways to read -/

/-- A value whose record is read is judged by its labels only. -/
theorem ofJson_of_readRecord {v : Json} {r : Record} (hr : readRecord (.ofJson v) = .ok r) :
    ofJson v = ofRecord r := by
  rw [ofJson, hr]

/-- A text is judged as its value is. -/
theorem ofText_of_readRecord {text : String} {w : Json}
    (htext : (Document.ofText text.toList).json? = some w) {r : Record}
    (hr : readRecord (.ofJson w) = .ok r) : ofText text = ofRecord r := by
  rw [ofText, Document.read_of_json? htext, hr]

theorem isRecord_iff_of_readRecord {v : Json} (hv : v.Distinct) {r : Record}
    (hr : readRecord (.ofJson v) = .ok r) : IsRecord none v ↔ ∃ t, ofRecord r = .ok t := by
  have haccepted : (∃ t, ofRecord r = .ok t) ↔ r.label = none ∧ r.mislabelledBelow? = none := by
    constructor
    · rintro ⟨t, ht⟩
      rw [← ofJson_of_readRecord hr] at ht
      obtain ⟨r', hr', hlabel, hbelow, _⟩ := ofJson_eq_ok_iff.mp ht
      rw [hr] at hr'
      cases hr'
      exact ⟨hlabel, hbelow⟩
    · rintro ⟨hlabel, hbelow⟩
      exact ⟨r.strip, by rw [ofRecord, Record.toTrie_eq_ok_iff.mpr ⟨hlabel, hbelow, rfl⟩]⟩
  rw [haccepted]
  constructor
  · intro h
    obtain ⟨r', hr', hlabel, hbelow⟩ := h.exists_readRecord hv
    rw [hr] at hr'
    cases hr'
    exact ⟨hlabel, hbelow⟩
  · rintro ⟨hlabel, hbelow⟩
    rw [← hlabel]
    exact isRecord_of_readRecord hv hr hbelow

/-- **A value and its texts.** The compact text of a value, with the members of its objects in any
order, is one of the texts that are read as this value. From each of them the snapshot is read as
from the value: the same index if the value is a well-labelled record, the same misplaced label
if it is another record, and nothing, for its shape, if it is no record at all. -/
theorem ofText_agrees {v w : Json} (hv : v.Distinct) (hnumbers : v.WellFormed)
    (h : v.Rearranged w) :
    (Document.ofText w.render.toList).json? = some w ∧
      ∀ text : String, (Document.ofText text.toList).json? = some w →
        (IsRecord none v → ∃ t, ofJson v = .ok t ∧ ofText text = .ok t) ∧
        (HasShape v → ¬IsRecord none v →
          ∃ m, ofJson v = .error (.mislabelled m) ∧ ofText text = .error (.mislabelled m)) ∧
        (¬HasShape v → (∃ fault, ofJson v = .error (.malformed fault)) ∧
          ∃ fault, ofText text = .error (.malformed fault)) := by
  refine ⟨Document.json?_render (h.wellFormed hnumbers), fun text htext => ?_⟩
  rw [← exists_readRecord_iff_hasShape hv]
  cases hr : readRecord (.ofJson v) with
  | ok r =>
    have hjson := ofJson_of_readRecord hr
    have hofText := ofText_of_readRecord htext (readRecord_of_rearranged hv h hr)
    rw [isRecord_iff_of_readRecord hv hr, hjson, hofText]
    refine ⟨fun ⟨t, ht⟩ => ⟨t, ht, ht⟩, fun _ hnone => ?_, fun hnone => absurd ⟨r, rfl⟩ hnone⟩
    rw [ofRecord] at hnone ⊢
    cases htrie : r.toTrie with
    | ok t =>
      rw [htrie] at hnone
      exact absurd ⟨t, rfl⟩ hnone
    | error m => exact ⟨m, rfl, rfl⟩
  | error fault =>
    have hnone : ∀ r, readRecord (.ofJson w) ≠ .ok r := by
      intro r hr'
      rw [readRecord_of_rearranged (h.distinct hv) h.symm hr'] at hr
      cases hr
    refine ⟨fun hrecord => ?_, fun hshape => ?_, fun _ => ⟨⟨.data, ?_⟩, ?_⟩⟩
    · obtain ⟨r, hr', _⟩ := hrecord.exists_readRecord hv
      rw [hr] at hr'
      cases hr'
    · obtain ⟨r, hr'⟩ := hshape
      cases hr'
    · rw [ofJson, hr]
    · rw [ofText, Document.read_of_json? htext]
      cases hw : readRecord (.ofJson w) with
      | ok r => exact absurd hw (hnone r)
      | error fault' => exact ⟨fault', rfl⟩

/-- A value with a member that is skipped, arrays for records, and a wrong label two levels down;
its text has the members in another order. -/
theorem ofText_agrees_mislabelled :
    let a : Json := .array [.text "a", .array []]
    let b : Json := .array [.text "b", .array [], .object [("c", .array [.null, .array []])]]
    let v : Json := .object [("note", .number "1e3"), ("char", .null), ("doc_ids", .array []),
      ("children", .object [("a", a), ("b", b)])]
    let w : Json := .object [("children", .object [("b", b), ("a", a)]), ("doc_ids", .array []),
      ("note", .number "1e3"), ("char", .null)]
    let text := "\x7b\"children\":\x7b\"b\":[\"b\",[],\x7b\"c\":[null,[]]\x7d]," ++
      "\"a\":[\"a\",[]]\x7d,\"doc_ids\":[],\"note\":1e3,\"char\":null\x7d"
    v.Distinct ∧ v.WellFormed ∧ v.Rearranged w ∧ text = w.render ∧ HasShape v ∧
      ¬IsRecord none v ∧ ofJson v = .error (.mislabelled (.child 'c' none)) ∧
      ofText text = .error (.mislabelled (.child 'c' none)) := by
  intro a b v w text
  have hkids : (Json.object [("a", a), ("b", b)]).Distinct ∧
      (Json.object [("a", a), ("b", b)]).WellFormed := by
    have hleaf (s : Json) (hs : s.Distinct ∧ s.WellFormed) :
        (Json.array [s, .array []]).Distinct ∧ (Json.array [s, .array []]).WellFormed :=
      ⟨.array (by simp [hs.1, Distinct.array]), .array (by simp [hs.2, WellFormed.array])⟩
    have ha := hleaf (.text "a") ⟨.text _, .text _⟩
    have hc := hleaf .null ⟨.null, .null⟩
    have hbelow : (Json.object [("c", .array [.null, .array []])]).Distinct ∧
        (Json.object [("c", .array [.null, .array []])]).WellFormed :=
      ⟨.object (by decide) (by simpa using hc.1), .object (by simpa using hc.2)⟩
    have hb : b.Distinct ∧ b.WellFormed :=
      ⟨.array (by simp [Distinct.text, Distinct.array, hbelow.1]),
        .array (by simp [WellFormed.text, WellFormed.array, hbelow.2])⟩
    exact ⟨.object (by decide) (by simpa using ⟨ha.1, hb.1⟩), .object (by simpa using ⟨ha.2, hb.2⟩)⟩
  have hv : v.Distinct :=
    .object (by decide) (by simp [Distinct.null, Distinct.number, Distinct.array, hkids.1])
  have hnumbers : v.WellFormed := by
    have hthousand : IsNumber "1e3".toList := ⟨.whole, .exponent, rfl, rfl, rfl⟩
    refine .object ?_
    simp [WellFormed.null, WellFormed.number hthousand, WellFormed.array, hkids.2]
  have hw : v.Rearranged w := by
    refine .object (by decide) fun k x x' hx hx' => ?_
    simp only [List.mem_cons, List.not_mem_nil, or_false, Prod.mk.injEq] at hx hx'
    obtain ⟨rfl, rfl⟩ | ⟨rfl, rfl⟩ | ⟨rfl, rfl⟩ | ⟨rfl, rfl⟩ := hx
    · obtain rfl : x' = .number "1e3" := by simpa using hx'
      exact .number "1e3"
    · obtain rfl : x' = .null := by simpa using hx'
      exact .null
    · obtain rfl : x' = .array [] := by simpa using hx'
      exact .array rfl (by simp)
    · obtain rfl : x' = .object [("b", b), ("a", a)] := by simpa using hx'
      exact .ofPerm hkids.1 (.swap ("b", b) ("a", a) [])
  have htext : text = w.render := by decide +kernel
  have hread : ∃ r, readRecord (.ofJson v) = .ok r := ⟨_, rfl⟩
  have hjson : ofJson v = .error (.mislabelled (.child 'c' none)) := rfl
  have hshape : HasShape v := (exists_readRecord_iff_hasShape hv).mp hread
  have hrecord : ¬IsRecord none v := by
    obtain ⟨r, hr⟩ := hread
    rw [isRecord_iff_of_readRecord hv hr, ← ofJson_of_readRecord hr, hjson]
    rintro ⟨t, ⟨⟩⟩
  obtain ⟨hcompact, hall⟩ := ofText_agrees hv hnumbers hw
  obtain ⟨m, hm, hm'⟩ := (hall w.render hcompact).2.1 hshape hrecord
  rw [hjson] at hm
  cases hm
  exact ⟨hv, hnumbers, hw, htext, hshape, hrecord, hjson, htext ▸ hm'⟩

end Snapshot

end Concordance
