import Concordance.Proofs.DocId
import Concordance.Proofs.Json.Distinct
import Concordance.Proofs.Snapshot.Reader
import Mathlib.Data.List.Forall2

/-!
# The parts of a record value

What a JSON value must be like so that a record is read from it, part by part, without the
reader. The parts of a record are members of an object or items of an array (`parts?`); a label
is `IsLabel`, the documents are `IsIds`. `readRecord_ofJson_iff` says that a record is read
exactly from such parts, and `exists_kid_of_member` and `exists_member_of_kid` which records stand
below it.

A JSON value has no object in which a key comes twice (`Json.Distinct`), so the order of an
object's members makes no difference.
-/

namespace Concordance

namespace Json

mutual

/-- A complete value can be skipped. -/
theorem skipFault?_ofJson : (v : Json) → (Draft.ofJson v).skipFault? = none
  | .null | .bool _ | .number _ | .text _ => by simp [Draft.ofJson, Draft.skipFault?]
  | .array items => by
    rw [Draft.ofJson, Draft.skipFault?, skipItems?_ofItems items]
    rfl
  | .object members => by
    rw [Draft.ofJson, Draft.skipFault?, skipMembers?_ofMembers members]
    rfl

theorem skipItems?_ofItems : (items : List Json) → Draft.skipItems? (Draft.ofItems items) = none
  | [] => by rw [Draft.ofItems, Draft.skipItems?]
  | v :: items => by
    rw [Draft.ofItems, Draft.skipItems?, skipFault?_ofJson v, skipItems?_ofItems items]
    rfl

theorem skipMembers?_ofMembers : (members : List (String × Json)) →
    Draft.skipMembers? (Draft.ofMembers members) = none
  | [] => by rw [Draft.ofMembers, Draft.skipMembers?]
  | (k, v) :: members => by
    rw [Draft.ofMembers, Draft.skipMembers?, skipFault?_ofJson v, skipMembers?_ofMembers members]
    rfl

end

end Json

open Json

namespace Snapshot

/-! ## Labels and documents -/

/-- The JSON values of labels: null, or a text of one character. -/
inductive IsLabel : Json → Option Char → Prop where
  | null : IsLabel .null none
  | text (c : Char) : IsLabel (.text (String.singleton c)) (some c)

/-- The JSON value of a document number: an integer. -/
inductive IsId : Json → DocId → Prop where
  | number {literal : String} {id : DocId} (nonempty : literal.toList ≠ [])
      (digits : ∀ c ∈ literal.toList, c.isDigit = true)
      (value : DocId.digitsValue 0 literal.toList = id.toNat) : IsId (.number literal) id

/-- The JSON value of some documents: an array of integers. -/
def IsIds (v : Json) (ids : List DocId) : Prop :=
  ∃ items, v = .array items ∧ List.Forall₂ IsId items ids

theorem eq_singleton_iff {s : String} {c : Char} : s = String.singleton c ↔ s.toList = [c] := by
  rw [← String.toList_inj, String.toList_singleton]

theorem readLabel_ofJson_iff {v : Json} {label : Option Char} :
    readLabel (.ofJson v) = .ok label ↔ IsLabel v label := by
  constructor
  · intro h
    cases v with
    | null =>
      rw [Draft.ofJson, readLabel] at h
      cases h
      exact .null
    | text s =>
      rw [Draft.ofJson] at h
      match hs : s.toList with
      | [c] =>
        rw [hs, readLabel] at h
        cases h
        rw [eq_singleton_iff.mpr hs]
        exact .text c
      | [] => simp [hs, readLabel] at h
      | _ :: _ :: _ => simp [hs, readLabel] at h
    | bool _ | number _ | array _ | object _ => simp [Draft.ofJson, readLabel] at h
  · rintro (_ | c)
    · rw [Draft.ofJson, readLabel]
    · rw [Draft.ofJson, String.toList_singleton, readLabel]

theorem readId_ofJson_iff {v : Json} {id : DocId} :
    readId (.ofJson v) = .ok id ↔ IsId v id := by
  constructor
  · intro h
    cases v with
    | number literal =>
      rw [Draft.ofJson, readId, String.ofList_toList] at h
      cases hparse : DocId.parse? literal with
      | none => simp [hparse] at h
      | some id' =>
        rw [hparse] at h
        cases h
        obtain ⟨hne, hdigits, hvalue⟩ := DocId.parse?_eq_some_iff.mp hparse
        exact .number hne hdigits hvalue
    | null | bool _ | text _ | array _ | object _ => simp [Draft.ofJson, readId] at h
  · rintro ⟨hne, hdigits, hvalue⟩
    rw [Draft.ofJson, readId, String.ofList_toList,
      DocId.parse?_eq_some_iff.mpr ⟨hne, hdigits, hvalue⟩]

theorem mapM_readId_iff {items : List Json} {ids : List DocId} :
    (Draft.ofItems items).mapM readId = .ok ids ↔ List.Forall₂ IsId items ids := by
  induction items generalizing ids with
  | nil =>
    rw [Draft.ofItems, List.mapM_nil, List.forall₂_nil_left_iff]
    constructor
    · rintro ⟨⟩
      rfl
    · rintro rfl
      rfl
  | cons v items ih =>
    rw [Draft.ofItems, List.mapM_cons, List.forall₂_cons_left_iff]
    constructor
    · intro h
      obtain ⟨id, hid, h⟩ := exists_of_bind_eq_ok h
      obtain ⟨ids', hids, h⟩ := exists_of_bind_eq_ok h
      cases h
      exact ⟨id, ids', readId_ofJson_iff.mp hid, ih.mp hids, rfl⟩
    · rintro ⟨id, ids', hid, hids, rfl⟩
      rw [readId_ofJson_iff.mpr hid, ih.mpr hids]
      rfl

theorem readIds_ofJson_iff {v : Json} {ids : List DocId} :
    readIds (.ofJson v) = .ok ids ↔ IsIds v ids := by
  constructor
  · intro h
    cases v with
    | array items =>
      rw [Draft.ofJson, readIds] at h
      obtain ⟨ids', hids, h⟩ := exists_of_bind_eq_ok h
      cases h
      exact ⟨items, rfl, mapM_readId_iff.mp hids⟩
    | null | bool _ | number _ | text _ | object _ => simp [Draft.ofJson, readIds] at h
  · rintro ⟨items, rfl, hids⟩
    rw [Draft.ofJson, readIds, mapM_readId_iff.mpr hids]
    rfl

/-! ## The parts of a record -/

/-- The values that a record is made of. -/
structure Parts where
  label : Json
  ids : Json
  children : Option Json

/-- The parts of a value that may be a record: the members of an object with their names, among
any others, or the items of an array in their order. -/
def parts? : Json → Option Parts
  | .object members => do
    return ⟨← members.lookup "char", ← members.lookup "doc_ids", members.lookup "children"⟩
  | .array [label, ids] => some ⟨label, ids, none⟩
  | .array [label, ids, children] => some ⟨label, ids, some children⟩
  | _ => none

theorem parts?_object {members : List (String × Json)} {p : Parts} :
    parts? (.object members) = some p ↔ members.lookup "char" = some p.label ∧
      members.lookup "doc_ids" = some p.ids ∧ members.lookup "children" = p.children := by
  obtain ⟨label, ids, children⟩ := p
  rw [parts?]
  cases members.lookup "char" with
  | none => simp
  | some l => cases members.lookup "doc_ids" <;> simp

theorem parts?_array {items : List Json} {p : Parts} :
    parts? (.array items) = some p ↔ items.length ≤ 3 ∧ items[0]? = some p.label ∧
      items[1]? = some p.ids ∧ items[2]? = p.children := by
  obtain ⟨label, ids, children⟩ := p
  match items with
  | [] | [_] | [_, _] | [_, _, _] | _ :: _ :: _ :: _ :: _ => simp [parts?]

/-- What becomes of a field, from before its member is read to after it. -/
def Filled {α : Type} (read : Draft → Except Fault α) (before after : Option α) :
    Option Json → Prop
  | none => after = before
  | some v => before = none ∧ ∃ a, read (.ofJson v) = .ok a ∧ after = some a

/-- A member that is read once. -/
theorem fill_eq_ok_iff {α β : Type} {before : Option α} {x : Except Fault α}
    {next : α → Except Fault β} {b : β} :
    (if before.isSome then .error .data else x >>= next) = .ok b ↔
      before = none ∧ ∃ a, x = .ok a ∧ next a = .ok b := by
  cases before with
  | some a => simp
  | none => simp [bind_eq_ok_iff]

/-- The fields after the members of an object. Each is filled from the member with its name. -/
theorem readFields_ofMembers_iff {members : List (String × Json)}
    (h : (members.map Prod.fst).Nodup) {f f' : Fields} :
    readFields f (Draft.ofMembers members) = .ok f' ↔
      Filled readLabel f.label f'.label (members.lookup "char") ∧
      Filled readIds f.ids f'.ids (members.lookup "doc_ids") ∧
      Filled readChildren f.children f'.children (members.lookup "children") := by
  induction members generalizing f with
  | nil =>
    rw [Draft.ofMembers, readFields]
    obtain ⟨label, ids, children⟩ := f
    obtain ⟨label', ids', children'⟩ := f'
    simp [Filled, eq_comm]
  | cons head rest ih =>
    obtain ⟨key, v⟩ := head
    obtain ⟨hkey, hrest⟩ := List.nodup_cons.mp h
    have habsent : rest.lookup key = none := lookup_eq_none hkey
    rw [Draft.ofMembers, readFields]
    simp only [String.toList_inj]
    -- A name that is read fills its field, and then no other member has this name.
    split
    · next hchar =>
      subst hchar
      rw [fill_eq_ok_iff, List.lookup_cons_self, lookup_cons_of_ne (by decide),
        lookup_cons_of_ne (by decide)]
      simp only [ih hrest, habsent]
      constructor
      · rintro ⟨hnone, a, hread, hlabel, hids, hkids⟩
        exact ⟨⟨hnone, a, hread, hlabel⟩, hids, hkids⟩
      · rintro ⟨⟨hnone, a, hread, hlabel⟩, hids, hkids⟩
        exact ⟨hnone, a, hread, hlabel, hids, hkids⟩
    split
    · next hids =>
      subst hids
      rw [fill_eq_ok_iff, List.lookup_cons_self, lookup_cons_of_ne (by decide),
        lookup_cons_of_ne (by decide)]
      simp only [ih hrest, habsent]
      constructor
      · rintro ⟨hnone, a, hread, hlabel, hids, hkids⟩
        exact ⟨hlabel, ⟨hnone, a, hread, hids⟩, hkids⟩
      · rintro ⟨hlabel, ⟨hnone, a, hread, hids⟩, hkids⟩
        exact ⟨hnone, a, hread, hlabel, hids, hkids⟩
    split
    · next hkids =>
      subst hkids
      rw [fill_eq_ok_iff, List.lookup_cons_self, lookup_cons_of_ne (by decide),
        lookup_cons_of_ne (by decide)]
      simp only [ih hrest, habsent]
      constructor
      · rintro ⟨hnone, a, hread, hlabel, hids, hkids⟩
        exact ⟨hlabel, hids, hnone, a, hread, hkids⟩
      · rintro ⟨hlabel, hids, hnone, a, hread, hkids⟩
        exact ⟨hnone, a, hread, hlabel, hids, hkids⟩
    · next hchar hids hkids =>
      rw [skipFault?_ofJson, lookup_cons_of_ne (Ne.symm hchar), lookup_cons_of_ne (Ne.symm hids),
        lookup_cons_of_ne (Ne.symm hkids)]
      exact ih hrest

theorem Fields.record_eq_ok_iff {f : Fields} {label : Option Char} {ids : List DocId}
    {kids : List (Char × Record)} :
    f.record = .ok (.node label ids kids) ↔
      f.label = some label ∧ f.ids = some ids ∧ f.children.getD [] = kids := by
  obtain ⟨label?, ids?, kids?⟩ := f
  rw [Fields.record]
  cases label? with
  | none => simp
  | some label' => cases ids? <;> simp

/-- The records below one are read from its part for them, if it has that. -/
def ChildrenRead (children : Option Json) (kids : List (Char × Record)) : Prop :=
  match children with
  | none => kids = []
  | some v => readChildren (.ofJson v) = .ok kids

/-- The record that is made of fields which have been filled. -/
theorem exists_record_iff {label? ids? children? : Option Json} {label : Option Char}
    {ids : List DocId} {kids : List (Char × Record)} :
    (∃ f : Fields, (Filled readLabel none f.label label? ∧ Filled readIds none f.ids ids? ∧
        Filled readChildren none f.children children?) ∧ f.record = .ok (.node label ids kids)) ↔
      ∃ p : Parts, (label? = some p.label ∧ ids? = some p.ids ∧ children? = p.children) ∧
        IsLabel p.label label ∧ IsIds p.ids ids ∧ ChildrenRead p.children kids := by
  simp only [← readLabel_ofJson_iff, ← readIds_ofJson_iff]
  constructor
  · rintro ⟨⟨label', ids', children'⟩, ⟨hlabel, hids, hkids⟩, hrecord⟩
    obtain ⟨rfl, rfl, rfl⟩ := Fields.record_eq_ok_iff.mp hrecord
    -- What has been filled has been filled from a part.
    cases label? with
    | none => cases hlabel
    | some l =>
      cases ids? with
      | none => cases hids
      | some i =>
        obtain ⟨_, _, hl, ⟨⟩⟩ := hlabel
        obtain ⟨_, _, hi, ⟨⟩⟩ := hids
        refine ⟨⟨l, i, children?⟩, ⟨rfl, rfl, rfl⟩, hl, hi, ?_⟩
        cases children? with
        | none =>
          cases hkids
          rfl
        | some c =>
          obtain ⟨_, _, hc, ⟨⟩⟩ := hkids
          exact hc
  · rintro ⟨⟨l, i, children⟩, ⟨rfl, rfl, rfl⟩, hlabel, hids, hkids⟩
    cases children? with
    | none =>
      cases hkids
      exact ⟨⟨some label, some ids, none⟩,
        ⟨⟨rfl, label, hlabel, rfl⟩, ⟨rfl, ids, hids, rfl⟩, rfl⟩, rfl⟩
    | some c =>
      exact ⟨⟨some label, some ids, some kids⟩,
        ⟨⟨rfl, label, hlabel, rfl⟩, ⟨rfl, ids, hids, rfl⟩, rfl, kids, hkids, rfl⟩, rfl⟩

/-- The fields after the items of an array, which are the parts in their order. -/
theorem readParts_ofItems_iff {items : List Json} {f : Fields} :
    readParts {} (Draft.ofItems items) = .ok f ↔ items.length ≤ 3 ∧
      Filled readLabel none f.label items[0]? ∧ Filled readIds none f.ids items[1]? ∧
      Filled readChildren none f.children items[2]? := by
  obtain ⟨label, ids, children⟩ := f
  match items with
  | [] =>
    simp only [Draft.ofItems, readParts, Except.ok.injEq, Fields.mk.injEq]
    constructor
    · rintro ⟨rfl, rfl, rfl⟩
      exact ⟨by decide, rfl, rfl, rfl⟩
    · rintro ⟨_, rfl, rfl, rfl⟩
      exact ⟨rfl, rfl, rfl⟩
  | [l] =>
    simp only [Draft.ofItems, readParts, Option.isNone_none, if_true, bind_eq_ok_iff,
      Except.ok.injEq, Fields.mk.injEq]
    constructor
    · rintro ⟨a, hl, rfl, rfl, rfl⟩
      exact ⟨by simp, ⟨rfl, a, hl, rfl⟩, rfl, rfl⟩
    · rintro ⟨_, ⟨_, a, hl, rfl⟩, rfl, rfl⟩
      exact ⟨a, hl, rfl, rfl, rfl⟩
  | [l, i] =>
    simp only [Draft.ofItems, readParts, Option.isNone_none, Option.isNone_some, if_true,
      Bool.false_eq_true, if_false, bind_eq_ok_iff, Except.ok.injEq, Fields.mk.injEq]
    constructor
    · rintro ⟨a, hl, b, hi, rfl, rfl, rfl⟩
      exact ⟨by simp, ⟨rfl, a, hl, rfl⟩, ⟨rfl, b, hi, rfl⟩, rfl⟩
    · rintro ⟨_, ⟨_, a, hl, rfl⟩, ⟨_, b, hi, rfl⟩, rfl⟩
      exact ⟨a, hl, b, hi, rfl, rfl, rfl⟩
  | [l, i, c] =>
    simp only [Draft.ofItems, readParts, Option.isNone_none, Option.isNone_some, if_true,
      Bool.false_eq_true, if_false, bind_eq_ok_iff, Except.ok.injEq, Fields.mk.injEq]
    constructor
    · rintro ⟨a, hl, b, hi, kids, hc, rfl, rfl, rfl⟩
      exact ⟨by simp, ⟨rfl, a, hl, rfl⟩, ⟨rfl, b, hi, rfl⟩, rfl, kids, hc, rfl⟩
    · rintro ⟨_, ⟨_, a, hl, rfl⟩, ⟨_, b, hi, rfl⟩, _, kids, hc, rfl⟩
      exact ⟨a, hl, b, hi, kids, hc, rfl, rfl, rfl⟩
  | _ :: _ :: _ :: _ :: _ =>
    simp [Draft.ofItems, readParts, bind_eq_ok_iff]

/-- **A record is read from its parts**, and from nothing else. -/
theorem readRecord_ofJson_iff {v : Json} (hv : v.Distinct) {label : Option Char}
    {ids : List DocId} {kids : List (Char × Record)} :
    readRecord (.ofJson v) = .ok (.node label ids kids) ↔
      ∃ p, parts? v = some p ∧ IsLabel p.label label ∧ IsIds p.ids ids ∧
        ChildrenRead p.children kids := by
  cases v with
  | object members =>
    cases hv with
    | object hkeys _ =>
      rw [Draft.ofJson, readRecord]
      simp only [bind_eq_ok_iff, closed, Except.ok.injEq, exists_eq_left',
        readFields_ofMembers_iff hkeys, exists_record_iff, parts?_object]
  | array items =>
    rw [Draft.ofJson, readRecord]
    simp only [bind_eq_ok_iff, closed, Except.ok.injEq, exists_eq_left', readParts_ofItems_iff,
      parts?_array]
    constructor
    · rintro ⟨f, ⟨hlength, hfilled⟩, hrecord⟩
      obtain ⟨p, hp, hread⟩ := exists_record_iff.mp ⟨f, hfilled, hrecord⟩
      exact ⟨p, ⟨hlength, hp⟩, hread⟩
    · rintro ⟨p, ⟨hlength, hp⟩, hread⟩
      obtain ⟨f, hfilled, hrecord⟩ := exists_record_iff.mpr ⟨p, hp, hread⟩
      exact ⟨f, ⟨hlength, hfilled⟩, hrecord⟩
  | null | bool _ | number _ | text _ => simp [Draft.ofJson, readRecord, parts?]

/-! ## The records below a record -/

theorem readKey_iff {key : String} {c : Char} :
    readKey (some key.toList) = .ok c ↔ key = String.singleton c := by
  rw [eq_singleton_iff]
  match key.toList with
  | [] | [_] | _ :: _ :: _ => simp [readKey]

theorem readChildren_ofJson_iff {v : Json} {kids : List (Char × Record)} :
    readChildren (.ofJson v) = .ok kids ↔
      ∃ members, v = .object members ∧ readBelow [] (Draft.ofMembers members) = .ok kids := by
  cases v with
  | object members =>
    rw [Draft.ofJson, readChildren]
    simp [bind_eq_ok_iff, closed]
  | null | bool _ | number _ | text _ | array _ => simp [Draft.ofJson, readChildren]

/-- The records that are read from some members, after others: under the key of a member the
record of its value, and under every other key what was there. -/
theorem readBelow_spec {members : List (String × Json)} (h : (members.map Prod.fst).Nodup)
    {before kids : List (Char × Record)} (hasc : Children.Ascending before)
    (hread : readBelow before (Draft.ofMembers members) = .ok kids) :
    (∀ m ∈ members, ∃ c, m.1 = String.singleton c) ∧
      ∀ c, match members.lookup (String.singleton c) with
        | none => kids.lookup c = before.lookup c
        | some v => ∃ r, readRecord (.ofJson v) = .ok r ∧ kids.lookup c = some r := by
  induction members generalizing before with
  | nil =>
    rw [Draft.ofMembers, readBelow] at hread
    cases hread
    exact ⟨nofun, fun c => rfl⟩
  | cons head rest ih =>
    obtain ⟨key, v⟩ := head
    obtain ⟨hkey, hrest⟩ := List.nodup_cons.mp h
    rw [Draft.ofMembers, readBelow] at hread
    obtain ⟨c, hc, hvalue⟩ := exists_of_bind_eq_ok hread
    obtain ⟨r, hr, hlater⟩ := exists_of_bind_eq_ok hvalue
    obtain rfl := readKey_iff.mp hc
    obtain ⟨hkeys, hlookup⟩ := ih hrest (hasc.upsert _ c) hlater
    refine ⟨?_, fun c' => ?_⟩
    · intro m hm
      rcases List.mem_cons.mp hm with rfl | hm
      · exact ⟨c, rfl⟩
      · exact hkeys m hm
    · have hc' := hlookup c'
      by_cases heq : c' = c
      · subst heq
        -- No later member has this key, so the record stays.
        rw [lookup_eq_none hkey, Children.lookup_upsert_self hasc] at hc'
        rw [List.lookup_cons_self]
        exact ⟨r, hr, hc'⟩
      · have hne : String.singleton c' ≠ String.singleton c := by
          simpa [eq_singleton_iff] using heq
        rw [lookup_cons_of_ne hne]
        rw [Children.lookup_upsert_of_ne heq] at hc'
        exact hc'

/-- The value under a key is read as a record below. -/
theorem exists_kid_of_member {members : List (String × Json)} (h : (members.map Prod.fst).Nodup)
    {kids : List (Char × Record)} (hread : readBelow [] (Draft.ofMembers members) = .ok kids)
    {c : Char} {v : Json} (hmem : (String.singleton c, v) ∈ members) :
    ∃ r, readRecord (.ofJson v) = .ok r ∧ (c, r) ∈ kids := by
  obtain ⟨_, hlookup⟩ := readBelow_spec h List.Pairwise.nil hread
  have hc := hlookup c
  rw [(lookup_eq_some_iff h).mpr hmem] at hc
  obtain ⟨r, hr, hkid⟩ := hc
  exact ⟨r, hr, Children.mem_of_lookup hkid⟩

/-- A record below is read from the value under its key. -/
theorem exists_member_of_kid {members : List (String × Json)} (h : (members.map Prod.fst).Nodup)
    {kids : List (Char × Record)} (hread : readBelow [] (Draft.ofMembers members) = .ok kids)
    {c : Char} {r : Record} (hmem : (c, r) ∈ kids) :
    ∃ v, (String.singleton c, v) ∈ members ∧ readRecord (.ofJson v) = .ok r := by
  obtain ⟨_, hlookup⟩ := readBelow_spec h List.Pairwise.nil hread
  have hasc : Children.Ascending kids := (ordered_readBelow _ _ _ .nil hread).1
  have hkid := (Children.lookup_eq_some_iff hasc).mpr hmem
  have hc := hlookup c
  cases hmember : members.lookup (String.singleton c) with
  | none =>
    rw [hmember, hkid] at hc
    cases hc
  | some v =>
    rw [hmember, hkid] at hc
    obtain ⟨r', hr', ⟨⟩⟩ := hc
    exact ⟨v, (lookup_eq_some_iff h).mp hmember, hr'⟩

/-- Members with records under keys of one character are read. -/
theorem exists_readBelow {members : List (String × Json)}
    (h : ∀ m ∈ members, ∃ c r, m.1 = String.singleton c ∧ readRecord (.ofJson m.2) = .ok r)
    (before : List (Char × Record)) :
    ∃ kids, readBelow before (Draft.ofMembers members) = .ok kids := by
  induction members generalizing before with
  | nil => exact ⟨before, by rw [Draft.ofMembers, readBelow]⟩
  | cons head rest ih =>
    obtain ⟨key, v⟩ := head
    obtain ⟨c, r, hc, hr⟩ := h (key, v) List.mem_cons_self
    rw [Draft.ofMembers, readBelow, readKey_iff.mpr hc, hr]
    exact ih (fun m hm => h m (List.mem_cons_of_mem _ hm)) _

end Snapshot

end Concordance
