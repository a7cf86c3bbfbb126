import Concordance.Proofs.Json.Document
import Concordance.Proofs.Json.Stub

/-!
# Documents that break off

`Torn d' d` says that the draft `d'` is what is left of `d` when its text ends too early: the
containers that are open there end early, and so does the innermost value.

The state of the machine after some tokens holds the first parts of whatever it can go on to
(`State.Allows`, kept by every step in `allows_of_step`). So where the tokens of a complete value
end early, what is left of it is torn (`exists_torn`), and so it is where its text does
(`exists_torn_of_write`).
-/

namespace Concordance.Json

/-- What is left of a draft when its text ends too early. -/
inductive Torn : Draft → Draft → Prop where
  | missing (d : Draft) : Torn (.missing .atEnd) d
  | number {literal literal' : List Char} (nonempty : literal' ≠ [])
      (begins : literal' <+: literal) : Torn (.number literal') (.number literal)
  /-- An array that ends after an item. -/
  | array (items more : List Draft) (stop : Option Break) :
      Torn (.array items (some .atEnd)) (.array (items ++ more) stop)
  /-- An array that ends inside an item. -/
  | item (items more : List Draft) (stop : Option Break) {d d' : Draft} (torn : Torn d' d) :
      Torn (.array (items ++ [d']) (some .atEnd)) (.array (items ++ d :: more) stop)
  /-- An object that ends after a member, or inside a key. -/
  | object (members more : List (Option (List Char) × Draft)) (stop : Option Break) :
      Torn (.object members (some .atEnd)) (.object (members ++ more) stop)
  /-- An object that ends after a key, or inside the value of a member. -/
  | member (members more : List (Option (List Char) × Draft)) (key : Option (List Char))
      (stop : Option Break) {d d' : Draft} (torn : Torn d' d) :
      Torn (.object (members ++ [(key, d')]) (some .atEnd))
        (.object (members ++ (key, d) :: more) stop)

namespace State

/-- The draft `w` has the draft `d` inside the open containers, and in these what they hold so
far. -/
def Holds : List Frame → Draft → Draft → Prop
  | [], d, w => d = w
  | .array items :: outer, d, w =>
    ∃ more stop, Holds outer (.array (items.reverse ++ d :: more) stop) w
  | .object members k :: outer, d, w =>
    ∃ more stop, Holds outer (.object (members.reverse ++ (k, d) :: more) stop) w

/-- The drafts that the machine can still come to from a state. -/
def Allows (w : Draft) : State → Prop
  | value outer => ∃ d, Holds outer d w
  | firstItem outer => ∃ items stop, Holds outer (.array items stop) w
  | afterItem outer items => ∃ more stop, Holds outer (.array (items.reverse ++ more) stop) w
  | firstKey outer => ∃ members stop, Holds outer (.object members stop) w
  | key outer members | afterMember outer members =>
    ∃ more stop, Holds outer (.object (members.reverse ++ more) stop) w
  | colon outer members k =>
    ∃ d more stop, Holds outer (.object (members.reverse ++ (k, d) :: more) stop) w
  | done d => d = w

variable {w : Draft}

theorem step_firstItem (outer : List Frame) {t : Token} (h : t ≠ .arrayClose) :
    (firstItem outer).step t = begin (.array [] :: outer) t := by
  cases t with
  | arrayClose => exact absurd rfl h
  | objectOpen | objectClose | arrayOpen | comma | colon | null | bool | number | text | cutText
  | cutScalar | junk => rfl

theorem step_firstKey (outer : List Frame) {t : Token} (h : t ≠ .objectClose) :
    (firstKey outer).step t = beginKey outer [] t := by
  cases t with
  | objectClose => exact absurd rfl h
  | objectOpen | arrayOpen | arrayClose | comma | colon | null | bool | number | text | cutText
  | cutScalar | junk => rfl

/-- What a completed value allows has it in its place. -/
theorem holds_of_complete {d : Draft} {outer : List Frame} (h : (complete d outer).Allows w) :
    Holds outer d w := by
  cases outer with
  | nil => exact h
  | cons frame outer =>
    cases frame with
    | array items | object members k =>
      obtain ⟨more, stop, h⟩ := h
      rw [List.reverse_cons, List.append_assoc] at h
      exact ⟨more, stop, h⟩

/-- What a value that has begun allows has some value in its place. -/
theorem exists_holds_of_begin {outer : List Frame} {t : Token} {s : State}
    (h : begin outer t = .ok s) (hw : s.Allows w) : ∃ d, Holds outer d w := by
  cases t with
  | null | bool | number | text =>
    cases h
    exact ⟨_, holds_of_complete hw⟩
  | arrayOpen | objectOpen =>
    cases h
    obtain ⟨parts, stop, hw⟩ := hw
    exact ⟨_, hw⟩
  | objectClose | arrayClose | comma | colon | cutText | cutScalar | junk => cases h

theorem exists_holds_of_beginKey {outer : List Frame}
    {members : List (Option (List Char) × Draft)} {t : Token} {s : State}
    (h : beginKey outer members t = .ok s) (hw : s.Allows w) :
    ∃ more stop, Holds outer (.object (members.reverse ++ more) stop) w := by
  cases t with
  | text s =>
    cases h
    obtain ⟨d, more, stop, hw⟩ := hw
    exact ⟨_, stop, hw⟩
  | objectOpen | objectClose | arrayOpen | arrayClose | comma | colon | null | bool | number
  | cutText | cutScalar | junk => cases h

/-- **One token.** What is allowed after it was allowed before. -/
theorem allows_of_step {s s' : State} {t : Token} (h : s.step t = .ok s') (hw : s'.Allows w) :
    s.Allows w := by
  cases s with
  | value outer => exact exists_holds_of_begin h hw
  | firstItem outer =>
    by_cases ht : t = .arrayClose
    · subst ht
      cases h
      exact ⟨[], none, holds_of_complete hw⟩
    · rw [step_firstItem outer ht] at h
      obtain ⟨d, more, stop, hw⟩ := exists_holds_of_begin h hw
      exact ⟨_, stop, hw⟩
  | afterItem outer items =>
    cases t with
    | arrayClose =>
      cases h
      refine ⟨[], none, ?_⟩
      rw [List.append_nil]
      exact holds_of_complete hw
    | comma =>
      cases h
      obtain ⟨d, more, stop, hw⟩ := hw
      exact ⟨_, stop, hw⟩
    | objectOpen | objectClose | arrayOpen | colon | null | bool | number | text | cutText
    | cutScalar | junk => cases h
  | firstKey outer =>
    by_cases ht : t = .objectClose
    · subst ht
      cases h
      exact ⟨[], none, holds_of_complete hw⟩
    · rw [step_firstKey outer ht] at h
      exact exists_holds_of_beginKey h hw
  | key outer members => exact exists_holds_of_beginKey h hw
  | colon outer members k =>
    cases t with
    | colon =>
      cases h
      obtain ⟨d, more, stop, hw⟩ := hw
      exact ⟨d, more, stop, hw⟩
    | objectOpen | objectClose | arrayOpen | arrayClose | comma | null | bool | number | text
    | cutText | cutScalar | junk => cases h
  | afterMember outer members =>
    cases t with
    | objectClose =>
      cases h
      refine ⟨[], none, ?_⟩
      rw [List.append_nil]
      exact holds_of_complete hw
    | comma =>
      cases h
      exact hw
    | objectOpen | arrayOpen | arrayClose | colon | null | bool | number | text | cutText
    | cutScalar | junk => cases h
  | done d => cases h

/-- A value that stops stays in its place. -/
theorem holds_wrap (why : Break) (d : Draft) (outer : List Frame) :
    Holds outer d (wrap why d outer) := by
  induction outer generalizing d with
  | nil => rfl
  | cons frame outer ih =>
    cases frame with
    | array items | object members k =>
      refine ⟨[], some why, ?_⟩
      rw [wrap, List.reverse_cons]
      exact ih _

/-- A state allows to stop there. -/
theorem allows_stop (why : Break) (s : State) : s.Allows (s.stop why) := by
  cases s with
  | value outer => exact ⟨_, holds_wrap why _ outer⟩
  | firstItem outer | firstKey outer => exact ⟨[], some why, holds_wrap why _ outer⟩
  | afterItem outer items | key outer items | afterMember outer items =>
    refine ⟨[], some why, ?_⟩
    rw [List.append_nil]
    exact holds_wrap why _ outer
  | colon outer members k =>
    refine ⟨.missing why, [], some why, ?_⟩
    rw [stop, List.reverse_cons]
    exact holds_wrap why _ outer
  | done d => rfl

/-! ## Stopping at the end of the text -/

/-- A torn value in the open containers, which end there, is torn as a whole. -/
theorem torn_wrap {d d' : Draft} (torn : Torn d' d) {outer : List Frame} (h : Holds outer d w) :
    Torn (wrap .atEnd d' outer) w := by
  induction outer generalizing d d' with
  | nil =>
    cases h
    exact torn
  | cons frame outer ih =>
    cases frame with
    | array items =>
      obtain ⟨more, stop, h⟩ := h
      refine ih ?_ h
      rw [List.reverse_cons]
      exact .item items.reverse more stop torn
    | object members k =>
      obtain ⟨more, stop, h⟩ := h
      refine ih ?_ h
      rw [List.reverse_cons]
      exact .member members.reverse more k stop torn

/-- Where the text ends in a state, what is left is torn from all that the state allows. -/
theorem torn_stop {s : State} (hw : s.Allows w) (hs : ∀ d, s ≠ done d) :
    Torn (s.stop .atEnd) w := by
  cases s with
  | value outer =>
    obtain ⟨d, h⟩ := hw
    exact torn_wrap (.missing d) h
  | firstItem outer =>
    obtain ⟨items, stop, h⟩ := hw
    exact torn_wrap (.array [] items stop) h
  | afterItem outer items =>
    obtain ⟨more, stop, h⟩ := hw
    exact torn_wrap (.array items.reverse more stop) h
  | firstKey outer =>
    obtain ⟨members, stop, h⟩ := hw
    exact torn_wrap (.object [] members stop) h
  | key outer members | afterMember outer members =>
    obtain ⟨more, stop, h⟩ := hw
    exact torn_wrap (.object members.reverse more stop) h
  | colon outer members k =>
    obtain ⟨d, more, stop, h⟩ := hw
    refine torn_wrap ?_ h
    rw [List.reverse_cons]
    exact .member members.reverse more k stop (.missing d)
  | done d => exact absurd rfl (hs d)

/-- A state that stops is no complete value. -/
theorem toJson?_wrap (why : Break) {d : Draft} (h : d.toJson? = none) (outer : List Frame) :
    (wrap why d outer).toJson? = none := by
  induction outer generalizing d with
  | nil => exact h
  | cons frame outer ih =>
    cases frame with
    | array items | object members k => exact ih (by rw [Draft.toJson?])

theorem toJson?_stop (why : Break) {s : State} (hs : ∀ d, s ≠ done d) :
    (s.stop why).toJson? = none := by
  cases s with
  | value | firstItem | afterItem | firstKey | key | colon | afterMember =>
    exact toJson?_wrap why (by rw [Draft.toJson?]) _
  | done d => exact absurd rfl (hs d)

theorem stop_complete (why : Break) (d : Draft) (outer : List Frame) :
    (complete d outer).stop why = wrap why d outer := by
  cases outer with
  | nil => rfl
  | cons frame outer =>
    cases frame with
    | array items | object members k => rfl

/-- Where a text is taken, one that breaks off stops the machine. -/
theorem step_cutText {s s' : State} {x : Option (List Char)} (h : s.step (.text x) = .ok s')
    (why : Break) : s.step (.cutText why) = .error why := by
  cases s with
  | value | firstItem | firstKey | key => rfl
  | afterItem | colon | afterMember | done => cases h

/-- Where a name is taken, one that breaks off stops the machine. -/
theorem step_cutScalar {s s' : State} {t : Token} (ht : t = .null ∨ ∃ b, t = .bool b)
    (h : s.step t = .ok s') (why : Break) : s.step (.cutScalar why) = .error why := by
  cases s with
  | value | firstItem => rfl
  | afterItem | firstKey | key | colon | afterMember | done =>
    obtain rfl | ⟨b, rfl⟩ := ht <;> cases h

/-- A number is complete in its place, however many digits it has. -/
theorem step_number {s s' : State} {l : List Char} (h : s.step (.number l) = .ok s')
    (l' : List Char) : ∃ outer, s' = complete (.number l) outer ∧
      s.step (.number l') = .ok (complete (.number l') outer) := by
  cases s with
  | value outer =>
    cases h
    exact ⟨outer, rfl, rfl⟩
  | firstItem outer =>
    cases h
    exact ⟨.array [] :: outer, rfl, rfl⟩
  | afterItem | firstKey | key | colon | afterMember | done => cases h

end State

namespace Document

open State

theorem ofTokens_nil (s : State) : ofTokens s [] = ⟨s.stop .atEnd, false⟩ := by
  cases s with
  | done d => rfl
  | value | firstItem | afterItem | firstKey | key | colon | afterMember =>
    rw [ofTokens]
    intro d h
    cases h

/-- A token that the machine does not take ends the document. -/
theorem ofTokens_error {s : State} {t : Token} {why : Break} (hs : ∀ d, s ≠ done d)
    (h : s.step t = .error why) (ts : List Token) : ofTokens s (t :: ts) = ⟨s.stop why, false⟩ := by
  rw [ofTokens, h]
  exact hs

/-- **A whole run.** A state allows the document that it comes to. -/
theorem allows_ofTokens (s : State) (ts : List Token) : s.Allows (ofTokens s ts).value := by
  induction ts generalizing s with
  | nil =>
    rw [ofTokens_nil]
    exact allows_stop .atEnd s
  | cons t ts ih =>
    by_cases hs : ∃ d, s = done d
    · obtain ⟨d, rfl⟩ := hs
      rfl
    · rw [not_exists] at hs
      cases hstep : s.step t with
      | ok s' =>
        rw [ofTokens_cons hstep]
        exact allows_of_step hstep (ih s')
      | error why =>
        rw [ofTokens_error hs hstep]
        exact allows_stop why s

/-- The next token of a complete value is taken. -/
theorem exists_step_of_json? {s : State} {t : Token} {ts : List Token} {v : Json}
    (h : (ofTokens s (t :: ts)).json? = some v) :
    (∀ d, s ≠ done d) ∧ ∃ s', s.step t = .ok s' ∧ ofTokens s (t :: ts) = ofTokens s' ts := by
  have hs : ∀ d, s ≠ done d := by
    rintro d rfl
    simp [ofTokens, json?] at h
  refine ⟨hs, ?_⟩
  cases hstep : s.step t with
  | ok s' => exact ⟨s', rfl, ofTokens_cons hstep ts⟩
  | error why =>
    rw [ofTokens_error hs hstep] at h
    have hnone : (s.stop why).toJson? = some v := h
    rw [toJson?_stop why hs] at hnone
    cases hnone

/-- **Documents that break off.** Of the tokens of a complete value, those before one of them and a
stub of this one are a torn document of it. -/
theorem exists_torn {s : State} {before after stub : List Token} {t : Token} {v : Json}
    (h : (ofTokens s (before ++ t :: after)).json? = some v) (hstub : Stub t stub) :
    ∃ d, ofTokens s (before ++ stub) = ⟨d, false⟩ ∧
      Torn d (ofTokens s (before ++ t :: after)).value := by
  -- On the tokens that are still there; the machine takes each of them.
  induction before generalizing s with
  | cons a before ih =>
    rw [List.cons_append] at h
    obtain ⟨_, s', hstep, heq⟩ := exists_step_of_json? h
    rw [heq] at h
    rw [List.cons_append, List.cons_append, heq, ofTokens_cons hstep]
    exact ih h
  | nil =>
    obtain ⟨hs, s', hstep, heq⟩ := exists_step_of_json? h
    have htorn : Torn (s.stop .atEnd) (ofTokens s (t :: after)).value :=
      torn_stop (allows_ofTokens s (t :: after)) hs
    show ∃ d, ofTokens s stub = ⟨d, false⟩ ∧ Torn d (ofTokens s (t :: after)).value
    cases hstub with
    | nothing => exact ⟨_, ofTokens_nil s, htorn⟩
    | text x => exact ⟨_, ofTokens_error hs (step_cutText hstep _) [], htorn⟩
    | null => exact ⟨_, ofTokens_error hs (step_cutScalar (.inl rfl) hstep _) [], htorn⟩
    | bool b => exact ⟨_, ofTokens_error hs (step_cutScalar (.inr ⟨b, rfl⟩) hstep _) [], htorn⟩
    | @number l l' hne hbegins =>
      obtain ⟨outer, rfl, hnumber⟩ := step_number hstep l'
      have hplace := holds_of_complete (allows_ofTokens (complete (.number l) outer) after)
      refine ⟨wrap .atEnd (.number l') outer, ?_, ?_⟩
      · rw [ofTokens_cons hnumber, ofTokens_nil, stop_complete]
      · rw [heq]
        exact torn_wrap (.number hne hbegins) hplace

/-- **Values that break off.** The text of a value that ends too early is read as a torn document
of the value. -/
theorem exists_torn_of_write {v : Json} (h : v.WellFormed) (hwhole : v.Whole)
    {cs more : List Char} (heq : cs ++ more = v.write []) (hmore : ∃ c ∈ more, ¬IsBlank c) :
    ∃ d, ofText cs = ⟨d, false⟩ ∧ Torn d (Draft.ofJson v) := by
  have htokens : tokens (cs ++ more) = v.spell [] := by
    rw [heq]
    exact tokensFrom_write v h [] fun _ _ => trivial
  have hdoc : ofText (cs ++ more) = ⟨Draft.ofJson v, false⟩ := by
    rw [heq]
    exact ofText_write h fun _ _ => trivial
  obtain ⟨before, t, after, stub, hbefore, hstub, hcs⟩ :=
    exists_stub (by rw [htokens]; exact hwhole [] (by simp)) hmore
  rw [ofText, hbefore] at hdoc
  have hjson : (ofTokens (.value []) (before ++ t :: after)).json? = some v := by
    rw [hdoc]
    exact Draft.toJson?_ofJson v
  obtain ⟨d, hd, htorn⟩ := exists_torn hjson hstub
  rw [hdoc] at htorn
  exact ⟨d, by rw [ofText, hcs, hd], htorn⟩

end Document

end Concordance.Json
