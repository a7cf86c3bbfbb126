import Concordance.Proofs.Json.Document
import Concordance.Proofs.Json.Stub
import Mathlib.Data.Option.Basic

/-!
# JSON texts

The texts of a value, as the grammar of JSON has them (`Source`): numbers and texts in any spelling,
with blanks around every value and every name.

A text of a value completes it, whatever containers are open around it (`Source.readsAs`); so its
document is the value, with nothing trailing (`Source.ofText_eq`).
-/

namespace Concordance.Json

/-- A member of an object as it is written: its name and its value, each with the blanks around it,
and what they are. -/
structure SourceMember where
  name : List Char
  key : Option (List Char)
  text : List Char
  value : Draft

def SourceMember.source (m : SourceMember) : List Char :=
  m.name ++ ':' :: m.text

/-- The texts of a value, with the blanks around it. -/
inductive Source : List Char → Draft → Prop where
  | null : Source ['n', 'u', 'l', 'l'] .null
  | true : Source ['t', 'r', 'u', 'e'] (.bool Bool.true)
  | false : Source ['f', 'a', 'l', 's', 'e'] (.bool Bool.false)
  | number {literal : List Char} (h : Numeral literal) : Source literal (.number literal)
  | text {cs : List Char} {ps : List Piece} (h : Written cs ps) :
      Source ('"' :: cs ++ ['"']) (.text (Piece.chars? ps))
  | noItems {gap : List Char} (blank : ∀ c ∈ gap, IsBlank c) :
      Source ('[' :: gap ++ [']']) (.array [] none)
  | items {items : List (List Char × Draft)} (nonempty : items ≠ [])
      (each : ∀ i ∈ items, Source i.1 i.2) :
      Source ('[' :: [','].intercalate (items.map Prod.fst) ++ [']'])
        (.array (items.map Prod.snd) none)
  | noMembers {gap : List Char} (blank : ∀ c ∈ gap, IsBlank c) :
      Source ('\x7b' :: gap ++ ['\x7d']) (.object [] none)
  | members {members : List SourceMember} (nonempty : members ≠ [])
      (names : ∀ m ∈ members, Source m.name (.text m.key))
      (values : ∀ m ∈ members, Source m.text m.value) :
      Source ('\x7b' :: [','].intercalate (members.map SourceMember.source) ++ ['\x7d'])
        (.object (members.map fun m => (m.key, m.value)) none)
  | before {c : Char} {cs : List Char} {d : Draft} (blank : IsBlank c) (h : Source cs d) :
      Source (c :: cs) d
  | after {c : Char} {cs : List Char} {d : Draft} (h : Source cs d) (blank : IsBlank c) :
      Source (cs ++ [c]) d

theorem tokensFrom_blank {c : Char} (h : IsBlank c) (cs : List Char) :
    tokensFrom .free (c :: cs) = tokensFrom .free cs := by
  have hstep : Mode.free.step c = ([], some .free) := by
    rcases h with rfl | rfl | rfl | rfl <;> rfl
  exact tokensFrom_silent hstep cs

theorem tokensFrom_blanks {gap : List Char} (h : ∀ c ∈ gap, IsBlank c) (cs : List Char) :
    tokensFrom .free (gap ++ cs) = tokensFrom .free cs := by
  induction gap with
  | nil => rfl
  | cons c gap ih =>
    obtain ⟨hc, hgap⟩ := List.forall_mem_cons.mp h
    rw [List.cons_append, tokensFrom_blank hc, ih hgap]

/-- No number goes on with a blank. -/
theorem endsNumber_blank {c : Char} (h : IsBlank c) (rest : List Char) :
    EndsNumber (c :: rest) := by
  rcases h with rfl | rfl | rfl | rfl <;> exact ⟨rfl, by decide, by decide, by decide⟩

/-- The text of a text, with the blanks around it, is one token. -/
theorem Source.tokensFrom_text {cs : List Char} {x : Option (List Char)} (h : Source cs (.text x))
    (rest : List Char) : tokensFrom .free (cs ++ rest) = .text x :: tokensFrom .free rest := by
  generalize hd : Draft.text x = d at h
  induction h generalizing rest with
  | null | true | false | number | noItems | items | noMembers | members => cases hd
  | text h =>
    cases hd
    rw [List.append_assoc]
    exact tokensFrom_quoted h rest
  | before blank _ ih => rw [List.cons_append, tokensFrom_blank blank, ih rest hd]
  | after _ blank ih =>
    rw [List.append_assoc, List.singleton_append, ih _ hd, tokensFrom_blank blank]

/-- A text that completes a value, wherever a value may stand. -/
def ReadsAs (cs : List Char) (d : Draft) : Prop :=
  ∀ (s : State) (outer : List Frame) (rest : List Char), s.Awaits outer → EndsNumber rest →
    Document.ofTokens s (tokensFrom .free (cs ++ rest)) =
      Document.ofTokens (State.complete d outer) (tokensFrom .free rest)

/-- A text that is one token. -/
theorem readsAs_of_token {cs : List Char} {d : Draft} {t : Token}
    (htokens : ∀ rest, EndsNumber rest → tokensFrom .free (cs ++ rest) = t :: tokensFrom .free rest)
    (hbegin : ∀ outer, State.begin outer t = .ok (State.complete d outer)) : ReadsAs cs d := by
  intro s outer rest hs hrest
  rw [htokens rest hrest, Document.ofTokens_cons (hs _ _ (hbegin outer))]

/-- The items of an array that are left, and its end. -/
theorem ofTokens_items {texts : List (List Char × Draft)} (hne : texts ≠ [])
    (h : ∀ i ∈ texts, ReadsAs i.1 i.2) {s : State} {outer : List Frame} (items : List Draft)
    (hs : s.Awaits (.array items :: outer)) (rest : List Char) :
    Document.ofTokens s
        (tokensFrom .free ([','].intercalate (texts.map Prod.fst) ++ ']' :: rest)) =
      Document.ofTokens
        (State.complete (.array (items.reverse ++ texts.map Prod.snd) none) outer)
        (tokensFrom .free rest) := by
  induction texts generalizing s items with
  | nil => exact absurd rfl hne
  | cons i texts ih =>
    obtain ⟨hi, htexts⟩ := List.forall_mem_cons.mp h
    cases texts with
    | nil =>
      have hclose : (State.afterItem outer (i.2 :: items)).step .arrayClose =
          .ok (State.complete (.array (i.2 :: items).reverse none) outer) := rfl
      rw [List.map_singleton, List.intercalate_singleton,
        hi s _ _ hs (endsNumber_sign (.inr (.inl rfl)) rest), tokensFrom_sign rfl, State.complete,
        Document.ofTokens_cons hclose, List.reverse_cons]
      rfl
    | cons next texts =>
      have hcomma : (State.afterItem outer (i.2 :: items)).step .comma =
          .ok (.value (.array (i.2 :: items) :: outer)) := rfl
      have hrest := ih (by simp) htexts (i.2 :: items) (State.awaits_value _)
      rw [List.map_cons, List.map_cons, List.intercalate_cons_cons, List.append_assoc,
        List.append_assoc, List.singleton_append,
        hi s _ _ hs (endsNumber_sign (.inl rfl) _), tokensFrom_sign rfl, State.complete,
        Document.ofTokens_cons hcomma]
      rw [List.map_cons] at hrest
      rw [hrest]
      simp

/-- The members of an object that are left, and its end, where a key is awaited. -/
theorem ofTokens_members {texts : List SourceMember} (hne : texts ≠ [])
    (hnames : ∀ m ∈ texts, Source m.name (.text m.key))
    (hvalues : ∀ m ∈ texts, ReadsAs m.text m.value) {s : State} {outer : List Frame}
    (members : List (Option (List Char) × Draft))
    (hs : ∀ key, s.step (.text key) = .ok (.colon outer members key)) (rest : List Char) :
    Document.ofTokens s
        (tokensFrom .free
          ([','].intercalate (texts.map SourceMember.source) ++ '\x7d' :: rest)) =
      Document.ofTokens
        (State.complete
          (.object (members.reverse ++ texts.map fun m => (m.key, m.value)) none) outer)
        (tokensFrom .free rest) := by
  induction texts generalizing s members with
  | nil => exact absurd rfl hne
  | cons m texts ih =>
    obtain ⟨hname, hnames⟩ := List.forall_mem_cons.mp hnames
    obtain ⟨hvalue, hvalues⟩ := List.forall_mem_cons.mp hvalues
    have hcolon : (State.colon outer members m.key).step .colon =
        .ok (.value (.object members m.key :: outer)) := rfl
    have hmember {more : List Char} (hmore : EndsNumber more) :
        Document.ofTokens s (tokensFrom .free (m.source ++ more)) =
          Document.ofTokens (.afterMember outer ((m.key, m.value) :: members))
            (tokensFrom .free more) := by
      rw [SourceMember.source, List.append_assoc, List.cons_append, hname.tokensFrom_text,
        tokensFrom_sign rfl, Document.ofTokens_cons (hs m.key), Document.ofTokens_cons hcolon,
        hvalue _ _ _ (State.awaits_value _) hmore, State.complete]
    cases texts with
    | nil =>
      have hclose : (State.afterMember outer ((m.key, m.value) :: members)).step .objectClose =
          .ok (State.complete (.object ((m.key, m.value) :: members).reverse none) outer) := rfl
      rw [List.map_singleton, List.intercalate_singleton,
        hmember (endsNumber_sign (.inr (.inr rfl)) rest), tokensFrom_sign rfl,
        Document.ofTokens_cons hclose, List.reverse_cons]
      rfl
    | cons next texts =>
      have hcomma : (State.afterMember outer ((m.key, m.value) :: members)).step .comma =
          .ok (.key outer ((m.key, m.value) :: members)) := rfl
      have hkey (key : Option (List Char)) :
          (State.key outer ((m.key, m.value) :: members)).step (.text key) =
            .ok (.colon outer ((m.key, m.value) :: members) key) := rfl
      have hrest := ih (by simp) hnames hvalues ((m.key, m.value) :: members) hkey
      rw [List.map_cons] at hrest
      rw [List.map_cons, List.map_cons, List.intercalate_cons_cons, List.append_assoc,
        List.append_assoc, List.singleton_append, hmember (endsNumber_sign (.inl rfl) _),
        tokensFrom_sign rfl, Document.ofTokens_cons hcomma, hrest]
      simp

/-- The begin of a container. -/
theorem ofTokens_open {s s' : State} {outer : List Frame} (hs : s.Awaits outer) {opening : Char}
    {t : Token} (hsign : Mode.start opening = ([t], some .free))
    (hbegin : State.begin outer t = .ok s') (body : List Char) (closing : Char)
    (rest : List Char) :
    Document.ofTokens s (tokensFrom .free (opening :: body ++ [closing] ++ rest)) =
      Document.ofTokens s' (tokensFrom .free (body ++ closing :: rest)) := by
  rw [List.append_assoc, List.cons_append, tokensFrom_sign hsign,
    Document.ofTokens_cons (hs _ _ hbegin)]
  rfl

/-- **Values.** A text of a value completes it, wherever a value may stand. -/
theorem Source.readsAs {cs : List Char} {d : Draft} (h : Source cs d) : ReadsAs cs d := by
  induction h with
  | null => exact readsAs_of_token (fun rest _ => tokensFrom_null rest) fun _ => rfl
  | true => exact readsAs_of_token (fun rest _ => tokensFrom_true rest) fun _ => rfl
  | false => exact readsAs_of_token (fun rest _ => tokensFrom_false rest) fun _ => rfl
  | number h =>
    exact readsAs_of_token (fun rest hrest => tokensFrom_number h.isNumber hrest) fun _ => rfl
  | text h =>
    exact readsAs_of_token (fun rest _ => (Source.text h).tokensFrom_text rest) fun _ => rfl
  | noItems blank =>
    intro s outer rest hs _
    have hclose : (State.firstItem outer).step .arrayClose =
        .ok (State.complete (.array [] none) outer) := rfl
    rw [ofTokens_open hs rfl rfl, tokensFrom_blanks blank, tokensFrom_sign rfl,
      Document.ofTokens_cons hclose]
  | items nonempty _ ih =>
    intro s outer rest hs _
    rw [ofTokens_open hs rfl rfl, ofTokens_items nonempty ih [] (State.awaits_firstItem outer)]
    rfl
  | noMembers blank =>
    intro s outer rest hs _
    have hclose : (State.firstKey outer).step .objectClose =
        .ok (State.complete (.object [] none) outer) := rfl
    rw [ofTokens_open hs rfl rfl, tokensFrom_blanks blank, tokensFrom_sign rfl,
      Document.ofTokens_cons hclose]
  | members nonempty names _ _ ih =>
    intro s outer rest hs _
    have hkey (key : Option (List Char)) :
        (State.firstKey outer).step (.text key) = .ok (.colon outer [] key) := rfl
    rw [ofTokens_open hs rfl rfl, ofTokens_members nonempty names ih [] hkey]
    rfl
  | before blank _ ih =>
    intro s outer rest hs hrest
    rw [List.cons_append, tokensFrom_blank blank]
    exact ih s outer rest hs hrest
  | after _ blank ih =>
    intro s outer rest hs hrest
    rw [List.append_assoc, List.singleton_append, ih s outer _ hs (endsNumber_blank blank rest),
      tokensFrom_blank blank]

/-- The document of a text of a value is the value, and nothing trails it. -/
theorem Source.ofText_eq {cs : List Char} {d : Draft} (h : Source cs d) :
    Document.ofText cs = ⟨d, Bool.false⟩ := by
  have hread := h.readsAs (.value []) [] [] (State.awaits_value []) trivial
  rw [List.append_nil] at hread
  exact hread

/-! ## What is written -/

theorem source_writeText (s : String) : Source (writeText s []) (.text (some s.toList)) := by
  rw [← Piece.chars?_map_whole]
  exact .text (written_flatMap s.toList)

theorem source_write_bool (b : Bool) : Source ((Json.bool b).write []) (.bool b) := by
  cases b with
  | true => exact .true
  | false => exact .false

/-- A member of an object as it is written for a value. -/
def SourceMember.ofJson (m : String × Json) : SourceMember :=
  ⟨writeText m.1 [], some m.1.toList, m.2.write [], .ofJson m.2⟩

theorem write_members (m : String × Json) (ms : List (String × Json)) (rest : List Char) :
    writeText m.1 (':' :: m.2.write (writeMembers ms rest)) =
      [','].intercalate (((m :: ms).map SourceMember.ofJson).map SourceMember.source) ++ rest := by
  induction ms generalizing m with
  | nil =>
    rw [writeMembers, writeText_append, write_append]
    simp [SourceMember.source, SourceMember.ofJson]
  | cons next ms ih =>
    rw [writeMembers, ih, writeText_append, write_append]
    simp [SourceMember.source, SourceMember.ofJson, List.intercalate_cons_cons]

theorem Draft.ofMembers_eq (ms : List (String × Json)) :
    ofMembers ms = (ms.map SourceMember.ofJson).map fun m => (m.key, m.value) := by
  induction ms with
  | nil => rfl
  | cons m ms ih =>
    rw [ofMembers, ih]
    rfl

/-- What is written for an object is a text of it if this is so for its members. -/
theorem source_write_object {ms : List (String × Json)} (hne : ms ≠ [])
    (h : ∀ m ∈ ms, Source (m.2.write []) (.ofJson m.2)) :
    Source ((Json.object ms).write []) (.ofJson (.object ms)) := by
  obtain ⟨m, ms, rfl⟩ := List.exists_cons_of_ne_nil hne
  have hwrite : (Json.object (m :: ms)).write [] = '\x7b' ::
      [','].intercalate (((m :: ms).map SourceMember.ofJson).map SourceMember.source) ++
        ['\x7d'] := by
    rw [write, write_members]
    rfl
  rw [hwrite, Draft.ofJson, Draft.ofMembers_eq]
  refine .members (by simp) ?_ ?_
  · exact List.forall_mem_map.mpr fun m _ => source_writeText m.1
  · exact List.forall_mem_map.mpr h

/-! ## Skipping -/

namespace Draft

theorem skipItems?_eq_none_iff {items : List Draft} :
    skipItems? items = none ↔ ∀ d ∈ items, d.skipFault? = none := by
  induction items with
  | nil => exact iff_of_true rfl (List.forall_mem_nil _)
  | cons d items ih => rw [skipItems?, Option.orElse_eq_none, ih, List.forall_mem_cons]

theorem skipMembers?_eq_none_iff {members : List (Option (List Char) × Draft)} :
    skipMembers? members = none ↔ ∀ m ∈ members, m.2.skipFault? = none := by
  induction members with
  | nil => exact iff_of_true rfl (List.forall_mem_nil _)
  | cons m members ih => rw [skipMembers?, Option.orElse_eq_none, ih, List.forall_mem_cons]

end Draft

/-- Whatever has a text is skipped without a fault. -/
theorem Source.skipFault?_eq_none {cs : List Char} {d : Draft} (h : Source cs d) :
    d.skipFault? = none := by
  induction h with
  | null | true | false | number | text | noItems | noMembers => rfl
  | @items items _ _ ih =>
    have hitems : Draft.skipItems? (items.map Prod.snd) = none :=
      Draft.skipItems?_eq_none_iff.mpr (List.forall_mem_map.mpr ih)
    rw [Draft.skipFault?, hitems]
    rfl
  | @members members _ _ _ _ ih =>
    have hmembers : Draft.skipMembers? (members.map fun m => (m.key, m.value)) = none :=
      Draft.skipMembers?_eq_none_iff.mpr (List.forall_mem_map.mpr ih)
    rw [Draft.skipFault?, hmembers]
    rfl
  | before _ _ ih | after _ _ ih => exact ih

end Concordance.Json
