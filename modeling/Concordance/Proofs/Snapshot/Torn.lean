import Concordance.Proofs.Json.Torn
import Concordance.Proofs.Session.Saving
import Concordance.Proofs.Snapshot.Schema

/-!
# Snapshots that break off, or go on

A snapshot is loaded as a whole or not at all. The parts of a record are read one by one
(`OneByOne`), so where the text of a snapshot breaks off, all parts before that place are read as
they would have been, and the reader comes to the end of the text: a record of which only the
beginning is there is refused for that (`read_torn`). Text after a snapshot, other than blanks, is
refused for itself (`ofText_render_append_eq`).

The same holds of the bytes of a file, which may also break off inside a character.
-/

namespace Concordance

open Json

namespace Snapshot

/-! ## Labels and documents -/

/-- A reader that comes to its end, or to the end of the text. -/
def Cut {α : Type} (x : Except Fault α) : Prop :=
  x = .error .eof ∨ ∃ a, x = .ok a

/-- A reader after one that may have come to the end of the text. -/
theorem Cut.bind {α β : Type} {x : Except Fault α} (h : Cut x) {f : α → Except Fault β}
    (hf : ∀ a, Cut (f a)) : Cut (x >>= f) := by
  obtain rfl | ⟨a, rfl⟩ := h
  · exact .inl rfl
  · exact hf a

/-- A container that ends with the text is at fault for that, if for nothing before. -/
theorem Cut.closed {α β : Type} {x : Except Fault α} (h : Cut x) (f : α → Except Fault β) :
    (x >>= fun a => closed a (some .atEnd) >>= f) = .error .eof := by
  obtain rfl | ⟨a, rfl⟩ := h <;> rfl

theorem readLabel_torn {d d' : Draft} (torn : Torn d' d) {label : Option Char}
    (h : readLabel d = .ok label) : readLabel d' = .error .eof := by
  cases torn with
  | missing => rfl
  | number | array | item | object | member => simp [readLabel] at h

theorem readId_torn {d d' : Draft} (torn : Torn d' d) {id : DocId} (h : readId d = .ok id) :
    Cut (readId d') := by
  cases torn with
  | missing => exact .inl rfl
  | @number l l' hne hbegins =>
    rw [readId] at h
    split at h
    · next id hparse =>
      have hne' : (String.ofList l').toList ≠ [] := by simpa using hne
      have hbegins' : (String.ofList l').toList <+: (String.ofList l).toList := by
        simpa using hbegins
      obtain ⟨id', hid'⟩ := DocId.exists_parse?_of_prefix hparse hne' hbegins'
      exact .inr ⟨id', by rw [readId, hid']⟩
    · cases h
  | array | item | object | member => simp [readId] at h

theorem exists_of_mapM_readId {items : List Draft} {ids : List DocId}
    (h : items.mapM readId = .ok ids) : ∀ d ∈ items, ∃ id, readId d = .ok id := by
  induction items generalizing ids with
  | nil => exact fun _ hd => nomatch hd
  | cons d items ih =>
    rw [List.mapM_cons] at h
    obtain ⟨id, hid, h⟩ := exists_of_bind_eq_ok h
    obtain ⟨ids', hids, _⟩ := exists_of_bind_eq_ok h
    exact List.forall_mem_cons.mpr ⟨⟨id, hid⟩, ih hids⟩

theorem cut_mapM_readId {items : List Draft} (h : ∀ d ∈ items, Cut (readId d)) :
    Cut (items.mapM readId) := by
  induction items with
  | nil => exact .inr ⟨[], rfl⟩
  | cons d items ih =>
    obtain ⟨hd, hitems⟩ := List.forall_mem_cons.mp h
    rw [List.mapM_cons]
    exact hd.bind fun _ => (ih hitems).bind fun _ => .inr ⟨_, rfl⟩

theorem readIds_torn {d d' : Draft} (torn : Torn d' d) {ids : List DocId}
    (h : readIds d = .ok ids) : readIds d' = .error .eof := by
  cases torn with
  | missing => rfl
  | array items more stop =>
    rw [readIds] at h
    obtain ⟨_, hall, _⟩ := exists_of_bind_eq_ok h
    have hitems : Cut (items.mapM readId) := cut_mapM_readId fun d hd =>
      .inr (exists_of_mapM_readId hall d (List.mem_append_left more hd))
    rw [readIds]
    exact hitems.closed .ok
  | @item items more stop d d' torn =>
    rw [readIds] at h
    obtain ⟨_, hall, _⟩ := exists_of_bind_eq_ok h
    have hread := List.forall_mem_append.mp (exists_of_mapM_readId hall)
    obtain ⟨id, hid⟩ := hread.2 d List.mem_cons_self
    have hitems : Cut ((items ++ [d']).mapM readId) := by
      refine cut_mapM_readId (List.forall_mem_append.mpr ⟨fun d hd => .inr (hread.1 d hd), ?_⟩)
      exact List.forall_mem_singleton.mpr (readId_torn torn hid)
    rw [readIds]
    exact hitems.closed .ok
  | number | object | member => simp [readIds] at h

/-! ## Skipped values -/

theorem skipItems?_append (items more : List Draft) :
    Draft.skipItems? (items ++ more) = (Draft.skipItems? items).or (Draft.skipItems? more) := by
  induction items with
  | nil => rw [List.nil_append, Draft.skipItems?, Option.none_or]
  | cons d items ih =>
    rw [List.cons_append, Draft.skipItems?, Draft.skipItems?, ih]
    simp only [Option.orElse_eq_orElse, Option.orElse_eq_or, Option.or_assoc]

theorem skipMembers?_append (members more : List (Option (List Char) × Draft)) :
    Draft.skipMembers? (members ++ more) =
      (Draft.skipMembers? members).or (Draft.skipMembers? more) := by
  induction members with
  | nil => rw [List.nil_append, Draft.skipMembers?, Option.none_or]
  | cons m members ih =>
    rw [List.cons_append, Draft.skipMembers?, Draft.skipMembers?, ih]
    simp only [Option.orElse_eq_orElse, Option.orElse_eq_or, Option.or_assoc]

/-- What can be skipped can be skipped as far as its text goes. -/
theorem skipFault?_torn {d d' : Draft} (torn : Torn d' d) (h : d.skipFault? = none) :
    d'.skipFault? = none ∨ d'.skipFault? = some .eof := by
  induction torn with
  | missing => exact .inr rfl
  | number => exact .inl rfl
  | array items more stop =>
    simp only [Draft.skipFault?, skipItems?_append, Option.orElse_eq_orElse, Option.orElse_eq_or,
      Option.or_eq_none_iff] at h ⊢
    rw [h.1.1]
    exact .inr rfl
  | item items more stop torn ih =>
    simp only [Draft.skipFault?, skipItems?_append, Draft.skipItems?, Option.orElse_eq_orElse,
      Option.orElse_eq_or, Option.or_eq_none_iff] at h ⊢
    rw [h.1.1]
    obtain hd | hd := ih h.1.2.1
    · exact .inr (by rw [hd]; rfl)
    · exact .inr (by rw [hd]; rfl)
  | object members more stop =>
    simp only [Draft.skipFault?, skipMembers?_append, Option.orElse_eq_orElse,
      Option.orElse_eq_or, Option.or_eq_none_iff] at h ⊢
    rw [h.1.1]
    exact .inr rfl
  | member members more k stop torn ih =>
    simp only [Draft.skipFault?, skipMembers?_append, Draft.skipMembers?,
      Option.orElse_eq_orElse, Option.orElse_eq_or, Option.or_eq_none_iff] at h ⊢
    rw [h.1.1]
    obtain hd | hd := ih h.1.2.1
    · exact .inr (by rw [hd]; rfl)
    · exact .inr (by rw [hd]; rfl)

/-! ## Records -/

/-- A reader of the parts of a container, which takes them one by one. -/
structure OneByOne {α β : Type} (read : α → List β → Except Fault α) : Prop where
  nil : ∀ a, read a [] = .ok a
  cons : ∀ a b rest, read a (b :: rest) = read a [b] >>= fun a' => read a' rest

namespace OneByOne

variable {α β : Type} {read : α → List β → Except Fault α} {a a' : α} {before after : List β}

theorem append (h : OneByOne read) (a : α) (before after : List β) :
    read a (before ++ after) = read a before >>= fun a' => read a' after := by
  induction before generalizing a with
  | nil =>
    rw [List.nil_append, h.nil]
    rfl
  | cons b before ih =>
    rw [List.cons_append, h.cons a b (before ++ after), h.cons a b before, bind_assoc]
    simp only [ih]

/-- The first parts of what is read are read. -/
theorem cut (h : OneByOne read) (hread : read a (before ++ after) = .ok a') :
    Cut (read a before) := by
  rw [h.append] at hread
  obtain ⟨a₁, hbefore, _⟩ := exists_of_bind_eq_ok hread
  exact .inr ⟨a₁, hbefore⟩

/-- So they are with a part after them of which only the beginning is there. -/
theorem cut_torn (h : OneByOne read) {b b' : β} (hread : read a (before ++ b :: after) = .ok a')
    (htorn : ∀ a a', read a [b] = .ok a' → Cut (read a [b'])) :
    Cut (read a (before ++ [b'])) := by
  rw [h.append] at hread ⊢
  obtain ⟨a₁, hbefore, hread⟩ := exists_of_bind_eq_ok hread
  rw [h.cons] at hread
  obtain ⟨a₂, hb, _⟩ := exists_of_bind_eq_ok hread
  rw [hbefore]
  exact htorn a₁ a₂ hb

end OneByOne

theorem oneByOne_readFields : OneByOne readFields := by
  refine ⟨fun f => by rw [readFields], fun f m rest => ?_⟩
  obtain ⟨key, d⟩ := m
  cases key with
  | none => rfl
  | some key =>
    rw [readFields, readFields]
    split
    · split
      · rfl
      · cases readLabel d <;> simp only [readFields, Except.bind, bind]
    split
    · split
      · rfl
      · cases readIds d <;> simp only [readFields, Except.bind, bind]
    split
    · split
      · rfl
      · cases readChildren d <;> simp only [readFields, Except.bind, bind]
    · split
      · rfl
      · rw [readFields]
        rfl

theorem oneByOne_readParts : OneByOne readParts := by
  refine ⟨fun f => by rw [readParts], fun f d rest => ?_⟩
  rw [readParts, readParts]
  split
  · cases readLabel d <;> simp only [readParts, Except.bind, bind]
  split
  · cases readIds d <;> simp only [readParts, Except.bind, bind]
  split
  · cases readChildren d <;> simp only [readParts, Except.bind, bind]
  · rfl

theorem oneByOne_readBelow : OneByOne readBelow := by
  refine ⟨fun kids => by rw [readBelow], fun kids m rest => ?_⟩
  obtain ⟨key, d⟩ := m
  rw [readBelow, readBelow]
  cases readKey key with
  | error fault => rfl
  | ok c => cases readRecord d <;> simp only [readBelow, Except.bind, bind]

/-- A member that breaks off where it could have been read. -/
theorem readFields_torn {d d' : Draft} (torn : Torn d' d)
    (hkids : ∀ kids, readChildren d = .ok kids → readChildren d' = .error .eof)
    {key : Option (List Char)} {f f' : Fields} (h : readFields f [(key, d)] = .ok f') :
    Cut (readFields f [(key, d')]) := by
  cases key with
  | none => cases h
  | some key =>
    rw [readFields] at h ⊢
    by_cases hchar : key = "char".toList
    · rw [if_pos hchar, fill_eq_ok_iff] at h
      obtain ⟨hnone, label, hlabel, _⟩ := h
      rw [if_pos hchar, hnone, readLabel_torn torn hlabel]
      exact .inl rfl
    rw [if_neg hchar] at h ⊢
    by_cases hids : key = "doc_ids".toList
    · rw [if_pos hids, fill_eq_ok_iff] at h
      obtain ⟨hnone, ids, hread, _⟩ := h
      rw [if_pos hids, hnone, readIds_torn torn hread]
      exact .inl rfl
    rw [if_neg hids] at h ⊢
    by_cases hchildren : key = "children".toList
    · rw [if_pos hchildren, fill_eq_ok_iff] at h
      obtain ⟨hnone, kids, hread, _⟩ := h
      rw [if_pos hchildren, hnone, hkids kids hread]
      exact .inl rfl
    -- Any other member is skipped.
    rw [if_neg hchildren] at h ⊢
    cases hskip : d.skipFault? with
    | some fault =>
      rw [hskip] at h
      cases h
    | none =>
      obtain hd' | hd' := skipFault?_torn torn hskip
      · rw [hd', readFields]
        exact .inr ⟨f, rfl⟩
      · rw [hd']
        exact .inl rfl

/-- An item that breaks off where it could have been read. -/
theorem readParts_torn {d d' : Draft} (torn : Torn d' d)
    (hkids : ∀ kids, readChildren d = .ok kids → readChildren d' = .error .eof) {f f' : Fields}
    (h : readParts f [d] = .ok f') : Cut (readParts f [d']) := by
  rw [readParts] at h ⊢
  split at h
  · obtain ⟨label, hlabel, _⟩ := exists_of_bind_eq_ok h
    rw [if_pos ‹_›, readLabel_torn torn hlabel]
    exact .inl rfl
  split at h
  · obtain ⟨ids, hids, _⟩ := exists_of_bind_eq_ok h
    rw [if_neg ‹_›, if_pos ‹_›, readIds_torn torn hids]
    exact .inl rfl
  split at h
  · obtain ⟨kids, hread, _⟩ := exists_of_bind_eq_ok h
    rw [if_neg ‹_›, if_neg ‹_›, if_pos ‹_›, hkids kids hread]
    exact .inl rfl
  · cases h

/-- A record below that breaks off. -/
theorem readBelow_torn {d d' : Draft}
    (hrecord : ∀ r, readRecord d = .ok r → readRecord d' = .error .eof)
    {key : Option (List Char)} {kids kids' : List (Char × Record)}
    (h : readBelow kids [(key, d)] = .ok kids') : Cut (readBelow kids [(key, d')]) := by
  rw [readBelow] at h ⊢
  obtain ⟨c, hkey, h⟩ := exists_of_bind_eq_ok h
  obtain ⟨r, hr, _⟩ := exists_of_bind_eq_ok h
  rw [hkey, hrecord r hr]
  exact .inl rfl

/-- **Records that break off.** What is left of a record, or of the records below one, is refused
since the text ends in it. -/
theorem read_torn {d d' : Draft} (torn : Torn d' d) :
    (∀ r, readRecord d = .ok r → readRecord d' = .error .eof) ∧
      ∀ kids, readChildren d = .ok kids → readChildren d' = .error .eof := by
  induction torn with
  | missing => exact ⟨fun _ _ => rfl, fun _ _ => rfl⟩
  | number => constructor <;> simp [readRecord, readChildren]
  | array items more stop =>
    refine ⟨fun r h => ?_, by simp [readChildren]⟩
    rw [readRecord] at h ⊢
    obtain ⟨fields, hall, _⟩ := exists_of_bind_eq_ok h
    exact (oneByOne_readParts.cut hall).closed Fields.record
  | item items more stop torn ih =>
    refine ⟨fun r h => ?_, by simp [readChildren]⟩
    rw [readRecord] at h ⊢
    obtain ⟨fields, hall, _⟩ := exists_of_bind_eq_ok h
    have hcut := oneByOne_readParts.cut_torn hall fun _ _ => readParts_torn torn ih.2
    exact hcut.closed Fields.record
  | object members more stop =>
    constructor
    · intro r h
      rw [readRecord] at h ⊢
      obtain ⟨fields, hall, _⟩ := exists_of_bind_eq_ok h
      exact (oneByOne_readFields.cut hall).closed Fields.record
    · intro kids h
      rw [readChildren] at h ⊢
      obtain ⟨kids', hall, _⟩ := exists_of_bind_eq_ok h
      exact (oneByOne_readBelow.cut hall).closed .ok
  | member members more key stop torn ih =>
    constructor
    · intro r h
      rw [readRecord] at h ⊢
      obtain ⟨fields, hall, _⟩ := exists_of_bind_eq_ok h
      have hcut := oneByOne_readFields.cut_torn hall fun _ _ => readFields_torn torn ih.2
      exact hcut.closed Fields.record
    · intro kids h
      rw [readChildren] at h ⊢
      obtain ⟨kids', hall, _⟩ := exists_of_bind_eq_ok h
      have hcut := oneByOne_readBelow.cut_torn hall fun _ _ => readBelow_torn ih.1
      exact hcut.closed .ok

/-! ## The text of a snapshot -/

/-- The value of a record is an object. -/
theorem exists_toJson_eq_object (r : Record) : ∃ members, r.toJson = .object members := by
  cases r with
  | node label ids kids => cases kids <;> exact ⟨_, by rw [Record.toJson]⟩

theorem whole_toJson (r : Record) : r.toJson.Whole := by
  have hnumber : ∀ id : DocId, (Json.number id.text).Whole := fun id rest hrest =>
    List.forall_mem_cons.mpr ⟨fun _ hc => DocId.isDigit_of_mem_text hc, hrest⟩
  exact toJson_induction Json.whole_null Json.whole_text hnumber (fun _ => Json.whole_array)
    (fun _ => Json.whole_object) r

/-- Every end of a snapshot has more than blanks. -/
theorem exists_not_isBlank_of_append {t : Trie} {cs more : List Char}
    (h : cs ++ more = (render t).toList) (hmore : more ≠ []) : ∃ c ∈ more, ¬IsBlank c := by
  obtain ⟨front, hfront⟩ : ∃ front, (render t).toList = front ++ ['\x7d'] := by
    obtain ⟨members, hmembers⟩ := exists_toJson_eq_object (toRecord t)
    rw [toList_render, hmembers]
    exact exists_write_object members
  have hlast : more.getLast hmore = '\x7d' := by
    rw [← List.getLast_append_of_ne_nil (List.append_ne_nil_of_right_ne_nil cs hmore) hmore]
    simp only [h, hfront, List.getLast_concat]
  exact ⟨'\x7d', hlast ▸ List.getLast_mem hmore, by simp [IsBlank]⟩

/-- The document of a snapshot and what follows it. -/
theorem ofText_render_append (t : Trie) (rest : String) :
    Document.ofText (render t ++ rest).toList =
      ⟨Draft.ofJson (toRecord t).toJson, !(tokens rest.toList).isEmpty⟩ := by
  rw [String.toList_append, toList_render, ← write_append]
  obtain ⟨members, hmembers⟩ := exists_toJson_eq_object (toRecord t)
  have hend : ∀ literal, (toRecord t).toJson = .number literal → EndsNumber rest.toList := by
    intro literal h
    rw [hmembers] at h
    cases h
  exact Document.ofText_write (wellFormed_toJson _) hend

/-- A snapshot that breaks off anywhere is refused as a text that ends too early. -/
theorem ofText_of_append_eq_render {t : Trie} (h : t.WellFormed) {text rest : String}
    (heq : text ++ rest = render t) (hrest : rest ≠ "") :
    ofText text = .error (.malformed .eof) := by
  have hlist : text.toList ++ rest.toList = (render t).toList := by
    rw [← String.toList_append, heq]
  have hne : rest.toList ≠ [] := by simpa using hrest
  have hmore := exists_not_isBlank_of_append hlist hne
  rw [toList_render] at hlist
  obtain ⟨d, hd, htorn⟩ :=
    Document.exists_torn_of_write (wellFormed_toJson _) (whole_toJson _) hlist hmore
  have hread : readRecord d = .error .eof :=
    (read_torn htorn).1 _ (readRecord_toJson (Record.ordered_ofTrie none h))
  rw [ofText, hd, Document.read, hread]
  rfl

/-- A snapshot with more text after it: blanks change nothing, and all else is refused. -/
theorem ofText_render_append_eq {t : Trie} (h : t.WellFormed) (rest : String) :
    ofText (render t ++ rest) =
      if (tokens rest.toList).isEmpty then .ok t else .error (.malformed .syntactic) := by
  have hread : readRecord (Draft.ofJson (toRecord t).toJson) = .ok (toRecord t) :=
    readRecord_toJson (Record.ordered_ofTrie none h)
  rw [ofText, ofText_render_append, Document.read, hread]
  cases (tokens rest.toList).isEmpty with
  | true => exact ofRecord_toRecord h
  | false => rfl

/-! ## Snapshot files -/

/-- Bytes that begin like those of a text are those of its first characters. -/
theorem exists_append_of_toUTF8 {text whole : String} {more : ByteArray}
    (h : text.toUTF8 ++ more = whole.toUTF8) :
    ∃ rest : String, text ++ rest = whole ∧ rest.toUTF8 = more := by
  have hencode : text.toList.utf8Encode ++ more = whole.toList.utf8Encode := by
    rw [String.utf8Encode_toList, String.utf8Encode_toList]
    exact h
  obtain ⟨cs, hcs⟩ := List.isPrefix_of_utf8Encode_append_eq_utf8Encode more hencode
  have hwhole : text ++ String.ofList cs = whole := by
    rw [← String.toList_inj, String.toList_append, String.toList_ofList, hcs]
  refine ⟨String.ofList cs, hwhole, ?_⟩
  rw [← hwhole] at h
  have hbytes : text.toUTF8 ++ more = text.toUTF8 ++ (String.ofList cs).toUTF8 := by
    rw [h]
    exact String.toByteArray_append
  exact (ByteArray.append_right_inj _ |>.mp hbytes).symm

/-- A file with only the first bytes of a snapshot is not loaded. -/
theorem loadSnapshot_ne_ok_of_append {t : Trie} (h : t.WellFormed) {files : Files} {path : String}
    {bytes more : ByteArray} (hfile : files.find path = .ok (.file bytes))
    (heq : bytes ++ more = (render t).toUTF8) (hmore : more ≠ .empty) (t' : Trie) :
    Session.loadSnapshot files path ≠ .ok t' := by
  intro hload
  obtain ⟨text, hfind, htext⟩ := Session.loadSnapshot_eq_ok_iff.mp hload
  rw [hfile] at hfind
  cases hfind
  obtain ⟨rest, hwhole, hrest⟩ := exists_append_of_toUTF8 heq
  have hne : rest ≠ "" := by
    rintro rfl
    exact hmore hrest.symm
  rw [ofText_of_append_eq_render h hwhole hne] at htext
  cases htext

/-- A file in which more bytes follow a snapshot is loaded as that snapshot, if it is loaded. -/
theorem eq_of_loadSnapshot_append {t t' : Trie} (h : t.WellFormed) {files : Files} {path : String}
    {more : ByteArray} (hfile : files.find path = .ok (.file ((render t).toUTF8 ++ more)))
    (hload : Session.loadSnapshot files path = .ok t') : t' = t := by
  obtain ⟨text, hfind, htext⟩ := Session.loadSnapshot_eq_ok_iff.mp hload
  rw [hfile] at hfind
  have hbytes : (render t).toUTF8 ++ more = text.toUTF8 := Entry.file.inj (Except.ok.inj hfind)
  obtain ⟨rest, rfl, _⟩ := exists_append_of_toUTF8 hbytes
  rw [ofText_render_append_eq h] at htext
  split at htext
  · cases htext
    rfl
  · cases htext

/-- **All or nothing.** For every index that can come about, its snapshot is refused when it breaks
off, at any character, as a text that ends too early; it is loaded with any blanks after it; and it
is refused as no JSON when anything else follows. So a file with only the first bytes of it is not
loaded, and one in which more bytes follow it is not loaded as another index. -/
theorem ofText_of_prefix_or_extension {t : Trie} (h : t.Reachable) :
    (∀ text rest : String, text ++ rest = render t → rest ≠ "" →
        ofText text = .error (.malformed .eof)) ∧
      (∀ rest : String, (∀ c ∈ rest.toList, IsBlank c) → ofText (render t ++ rest) = .ok t) ∧
      (∀ rest : String, (∃ c ∈ rest.toList, ¬IsBlank c) →
        ofText (render t ++ rest) = .error (.malformed .syntactic)) ∧
      ∀ (files : Files) (path : String) (bytes more : ByteArray) (t' : Trie),
        files.find path = .ok (.file bytes) →
        (bytes ++ more = (render t).toUTF8 → more ≠ .empty →
          Session.loadSnapshot files path ≠ .ok t') ∧
        (bytes = (render t).toUTF8 ++ more → Session.loadSnapshot files path = .ok t' →
          t' = t) := by
  have hw : t.WellFormed := h.wellFormed
  refine ⟨fun text rest => ofText_of_append_eq_render hw, ?_, ?_, ?_⟩
  · intro rest hblank
    have hnil : tokens rest.toList = [] := tokens_eq_nil_iff.mpr hblank
    rw [ofText_render_append_eq hw, hnil]
    rfl
  · intro rest ⟨c, hc, hblank⟩
    have hne : tokens rest.toList ≠ [] := fun hnil => hblank (tokens_eq_nil_iff.mp hnil c hc)
    rw [ofText_render_append_eq hw, if_neg (by simpa using hne)]
  · intro files path bytes more t' hfile
    refine ⟨fun heq hmore => loadSnapshot_ne_ok_of_append hw hfile heq hmore t', ?_⟩
    intro heq hload
    rw [heq] at hfile
    exact eq_of_loadSnapshot_append hw hfile hload

/-- A snapshot that breaks off in the middle of an escape, one with a line feed after it, and one
with the end of an older snapshot after it, in a file as well. -/
theorem ofText_of_prefix_or_extension_quote :
    let t : Trie := .node [] [('"', .node [10] [])]
    let first := "\x7b\"char\":null,\"doc_ids\":[],\"children\":\x7b\"\\"
    let second := "\"\":\x7b\"char\":\"\\\"\",\"doc_ids\":[10]\x7d\x7d\x7d"
    let older := "]\x7d"
    t.Reachable ∧ first ++ second = render t ∧ ofText first = .error (.malformed .eof) ∧
      ofText (render t ++ "\n") = .ok t ∧
      ofText (render t ++ older) = .error (.malformed .syntactic) ∧
      ∃ files : Files,
        files.find "index.json" = .ok (.file ((render t).toUTF8 ++ older.toUTF8)) ∧
        ∀ t', Session.loadSnapshot files "index.json" = .ok t' → t' = t := by
  intro t first second older
  have hkids : ∀ e ∈ [('"', Record.node (some '"') [10] [])], e.2.Ordered := by
    intro e he
    rw [List.mem_singleton.mp he]
    exact .node .nil (by simp)
  have ht : t.Reachable :=
    .ofRecord (r := .node none [] _) (.node (by simp [Children.Ascending]) hkids) rfl
  have hrender : first ++ second = render t := by decide +kernel
  obtain ⟨hcut, hblanks, hother, hfiles⟩ := ofText_of_prefix_or_extension ht
  obtain ⟨files, hsave⟩ : ∃ files, ({} : Files).save "index.json"
      ((render t).toUTF8 ++ older.toUTF8) = (files, .ok ()) :=
    Files.exists_save_of_toBool (by decide +kernel)
  have hfind := Files.find_save hsave
  refine ⟨ht, hrender, hcut first second hrender (by decide), hblanks "\n" (by simp [IsBlank]),
    hother older ⟨']', by decide, by simp [IsBlank]⟩, files, hfind, fun t' hload => ?_⟩
  exact (hfiles files "index.json" _ _ t' hfind).2 rfl hload

end Snapshot

end Concordance
