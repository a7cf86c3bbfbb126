import Concordance.Proofs.Json.Tokens

/-!
# The tokens of text that breaks off

A text whose tokens are all `Whole` may end too early, at any character. The tokens before that
place are there as they were, and of the token in which it lies a *stub* is left (`Stub`): nothing,
a text or a name that breaks off, or a number with fewer digits (`exists_stub`).

What the reader is in the middle of decides this. A mode `Leads` to the tokens that it may come to
be: each character keeps that open or settles it (`step_cases`), so where a token is read to its
end the mode led to it (`leads_tokensFrom`), and where the text ends before, the mode leaves a stub
of every token that it leads to (`stub_finish`).

Only blanks have no tokens at all (`tokens_eq_nil_iff`).
-/

namespace Concordance.Json

/-- A token that came to its end, and of whose number every beginning is a number again. -/
def Token.Whole : Token → Prop
  | number literal => ∀ c ∈ literal, c.isDigit = true
  | text s => s.isSome = true
  | cutText _ | cutScalar _ | junk => False
  | objectOpen | objectClose | arrayOpen | arrayClose | comma | colon | null | bool _ => True

/-- What a token leaves when the text ends before it or inside it. -/
inductive Stub : Token → List Token → Prop where
  | nothing (t : Token) : Stub t []
  | text (s : List Char) : Stub (.text (some s)) [.cutText .atEnd]
  | null : Stub .null [.cutScalar .atEnd]
  | bool (b : Bool) : Stub (.bool b) [.cutScalar .atEnd]
  | number {literal literal' : List Char} (nonempty : literal' ≠ [])
      (begins : literal' <+: literal) : Stub (.number literal) [.number literal']

/-- The characters that may stand between tokens. -/
def IsBlank (c : Char) : Prop :=
  c = ' ' ∨ c = '\t' ∨ c = '\n' ∨ c = '\r'

namespace Mode

/-- What holds of every mode that the reader comes to: names are those of null and of the truth
values, and a number may end after each digit. -/
def Sound : Mode → Prop
  | name token _ _ => token = .null ∨ ∃ b, token = .bool b
  | number part literal =>
    ∃ c cs, literal = c :: cs ∧ (c.isDigit = true → part.isComplete = true)
  | free | text _ | escape _ | codeUnit _ _ => True

/-- The tokens that the reader may be in the middle of. Between tokens any can follow. -/
def Leads : Mode → Token → Prop
  | free, _ => True
  | name token _ _, t => t = token
  | number _ literal, t => ∃ l, t = .number l ∧ literal.reverse <+: l
  | text p, t | escape p, t | codeUnit p _, t => p.chars.isSome = true ∧ ∃ s, t = .text (some s)

/-! ## One character -/

/-- What a character between tokens does. -/
theorem start_cases (c : Char) :
    (IsBlank c ∧ start c = ([], some free)) ∨
      (¬IsBlank c ∧ ((∃ t, start c = ([t], some free)) ∨ start c = ([.junk], none) ∨
        ∃ mode, start c = ([], some mode) ∧ mode ≠ free ∧ mode.Sound)) := by
  by_cases hblank : IsBlank c
  · rcases hblank with rfl | rfl | rfl | rfl
    all_goals exact .inl ⟨by simp [IsBlank], rfl⟩
  · refine .inr ⟨hblank, ?_⟩
    unfold start
    split
    · exact absurd (.inl rfl) hblank
    · exact absurd (.inr (.inl rfl)) hblank
    · exact absurd (.inr (.inr (.inl rfl))) hblank
    · exact absurd (.inr (.inr (.inr rfl))) hblank
    -- Brackets and signs are tokens; all other characters begin one.
    iterate 6 exact .inl ⟨_, rfl⟩
    · exact .inr (.inr ⟨_, rfl, by simp, trivial⟩)
    · exact .inr (.inr ⟨_, rfl, by simp, .inl rfl⟩)
    · exact .inr (.inr ⟨_, rfl, by simp, .inr ⟨true, rfl⟩⟩)
    · exact .inr (.inr ⟨_, rfl, by simp, .inr ⟨false, rfl⟩⟩)
    · exact .inr (.inr ⟨_, rfl, by simp, '-', [], rfl, by decide⟩)
    · exact .inr (.inr ⟨_, rfl, by simp, '0', [], rfl, fun _ => rfl⟩)
    · split
      · exact .inr (.inr ⟨_, rfl, by simp, c, [], rfl, fun _ => rfl⟩)
      · exact .inr (.inl rfl)

/-- A number that goes on with a digit may end after it. -/
theorem isComplete_next? {part part' : NumberPart} {c : Char} (hdigit : c.isDigit = true)
    (h : part.next? c = some part') : part'.isComplete = true := by
  have hne : ∀ other : Char, other.isDigit = false → c ≠ other := by
    intro other hother heq
    rw [heq, hother] at hdigit
    cases hdigit
  cases part with
  | minus =>
    rw [NumberPart.next?, hdigit] at h
    split at h <;> (cases h; rfl)
  | zero =>
    have hmark : NumberPart.next?.mark? c = none := by
      simp [NumberPart.next?.mark?, hne '.' rfl, hne 'e' rfl, hne 'E' rfl]
    rw [NumberPart.next?, hmark] at h
    cases h
  | whole | point | fraction | exponentSign | exponent =>
    rw [NumberPart.next?, if_pos hdigit] at h
    cases h
    rfl
  | exponentMark =>
    have hsign : ¬(c = '+' ∨ c = '-') := not_or.mpr ⟨hne '+' rfl, hne '-' rfl⟩
    rw [NumberPart.next?, if_neg hsign, if_pos hdigit] at h
    cases h
    rfl

/-- The characters of a text are lost for good by half a pair. -/
theorem isSome_push {p : Partial} {c : Char} (h : (p.push c).chars.isSome = true) :
    p.chars.isSome = true := by
  rw [Partial.push] at h
  split at h
  · cases h
  · simpa using h

theorem isSome_pushUnit {p : Partial} {unit : Nat} (h : (p.pushUnit unit).chars.isSome = true) :
    p.chars.isSome = true := by
  rw [Partial.pushUnit] at h
  split at h
  · split at h
    · simpa using h
    · cases h
  · split at h
    · exact h
    · split at h
      · cases h
      · simpa using h

theorem leads_of_token {p : Partial} (h : p.token.Whole) : (text p).Leads p.token := by
  rw [Partial.token] at h ⊢
  split at h
  · cases h
  · cases hchars : p.chars with
    | none => rw [hchars] at h; cases h
    | some cs => exact ⟨by rw [hchars]; rfl, cs.reverse, rfl⟩

/-- What a character inside a token does: it is at fault, or keeps the token open, or the token
comes to its end with it or before it. -/
theorem step_cases {mode : Mode} (hmode : mode ≠ free) (h : mode.Sound) (c : Char) :
    (∃ t, mode.step c = ([t], none) ∧ ¬t.Whole) ∨
      (∃ mode', mode.step c = ([], some mode') ∧ mode' ≠ free ∧ mode'.Sound ∧
        ∀ t, mode'.Leads t → mode.Leads t) ∨
      ∃ t, (t.Whole → mode.Leads t) ∧ (mode.step c = ([t], some free) ∨
        mode.step c = (t :: (start c).1, (start c).2)) := by
  cases mode with
  | free => exact absurd rfl hmode
  | name token letter letters =>
    by_cases hletter : c = letter
    · subst hletter
      cases letters with
      | nil => exact .inr (.inr ⟨token, fun _ => rfl, .inl (if_pos rfl)⟩)
      | cons l ls => exact .inr (.inl ⟨name token l ls, if_pos rfl, by simp, h, fun _ ht => ht⟩)
    · exact .inl ⟨.cutScalar .wrong, if_neg hletter, id⟩
  | number part literal =>
    cases hnext : part.next? c with
    | some part' =>
      have hstep : (number part literal).step c = ([], some (number part' (c :: literal))) := by
        simp [step, hnext]
      refine .inr (.inl ⟨_, hstep, by simp, ⟨c, literal, rfl, ?_⟩, ?_⟩)
      · exact fun hdigit => isComplete_next? hdigit hnext
      · intro t ht
        obtain ⟨l, hl, hbegins⟩ := ht
        rw [List.reverse_cons] at hbegins
        exact ⟨l, hl, (List.prefix_append _ _).trans hbegins⟩
    | none =>
      cases hend : part.isComplete && !part.spoils c with
      | true =>
        have hstep : (number part literal).step c =
            (.number literal.reverse :: (start c).1, (start c).2) := by
          simp only [step, hnext, hend, if_true]
        exact .inr (.inr ⟨_, fun _ => ⟨_, rfl, List.prefix_rfl⟩, .inr hstep⟩)
      | false =>
        have hstep : (number part literal).step c = ([.cutScalar .wrong], none) := by
          simp [step, hnext, hend]
        exact .inl ⟨_, hstep, id⟩
  | text p =>
    by_cases hquote : c = '"'
    · subst hquote
      exact .inr (.inr ⟨p.token, leads_of_token, .inl rfl⟩)
    by_cases hbackslash : c = '\\'
    · subst hbackslash
      exact .inr (.inl ⟨escape p, rfl, by simp, trivial, fun _ ht => ht⟩)
    by_cases hlow : c.toNat < 0x20
    · have hstep : (text p).step c = ([.cutText .wrong], none) := by
        rw [step, if_neg hquote, if_neg hbackslash, if_pos hlow]
      exact .inl ⟨_, hstep, id⟩
    · have hstep : (text p).step c = ([], some (text (p.push c))) := by
        rw [step, if_neg hquote, if_neg hbackslash, if_neg hlow]
      exact .inr (.inl ⟨_, hstep, by simp, trivial, fun _ ht => ⟨isSome_push ht.1, ht.2⟩⟩)
  | escape p =>
    by_cases hunit : c = 'u'
    · subst hunit
      exact .inr (.inl ⟨codeUnit p [], rfl, by simp, trivial, fun _ ht => ht⟩)
    cases hescape : escape? c with
    | some e =>
      have hstep : (escape p).step c = ([], some (text (p.push e))) := by
        rw [step, if_neg hunit, hescape]
      exact .inr (.inl ⟨_, hstep, by simp, trivial, fun _ ht => ⟨isSome_push ht.1, ht.2⟩⟩)
    | none =>
      have hstep : (escape p).step c = ([.cutText .wrong], none) := by
        rw [step, if_neg hunit, hescape]
      exact .inl ⟨_, hstep, id⟩
  | codeUnit p digits =>
    by_cases hmore : byteLength (digits ++ [c]) < 4
    · exact .inr (.inl ⟨codeUnit p (digits ++ [c]), if_pos hmore, by simp, trivial, fun _ ht => ht⟩)
    cases hunit : unit? (digits ++ [c]) with
    | some unit =>
      have hstep : (codeUnit p digits).step c = ([], some (text (p.pushUnit unit))) := by
        rw [step, if_neg hmore, hunit]
      exact .inr (.inl ⟨_, hstep, by simp, trivial, fun _ ht => ⟨isSome_pushUnit ht.1, ht.2⟩⟩)
    | none =>
      have hstep : (codeUnit p digits).step c = ([.cutText .wrong], none) := by
        rw [step, if_neg hmore, hunit]
      exact .inl ⟨_, hstep, id⟩

/-- The reader stays sound, or it stops after a fault. -/
theorem sound_step {mode : Mode} (h : mode.Sound) (c : Char) :
    (∃ ts, mode.step c = (ts, none) ∧ ∃ t ∈ ts, ¬t.Whole) ∨
      ∃ ts mode', mode.step c = (ts, some mode') ∧ mode'.Sound := by
  have hstart : (∃ ts, start c = (ts, none) ∧ ∃ t ∈ ts, ¬t.Whole) ∨
      ∃ ts mode', start c = (ts, some mode') ∧ mode'.Sound := by
    obtain ⟨_, hc⟩ | ⟨_, ⟨t, hc⟩ | hc | ⟨mode', hc, _, hsound⟩⟩ := start_cases c
    · exact .inr ⟨_, _, hc, trivial⟩
    · exact .inr ⟨_, _, hc, trivial⟩
    · exact .inl ⟨_, hc, .junk, List.mem_singleton_self _, id⟩
    · exact .inr ⟨_, _, hc, hsound⟩
  by_cases hfree : mode = free
  · subst hfree
    exact hstart
  obtain ⟨t, hstep, ht⟩ | ⟨mode', hstep, _, hsound, _⟩ | ⟨t, _, hstep | hstep⟩ :=
    step_cases hfree h c
  · exact .inl ⟨_, hstep, t, List.mem_singleton_self _, ht⟩
  · exact .inr ⟨_, mode', hstep, hsound⟩
  · exact .inr ⟨_, free, hstep, trivial⟩
  · -- The character after a number does what it does between tokens.
    obtain ⟨ts, hc, t', ht', hfault⟩ | ⟨ts, mode', hc, hsound⟩ := hstart
    · rw [hc] at hstep
      exact .inl ⟨_, hstep, t', List.mem_cons_of_mem _ ht', hfault⟩
    · rw [hc] at hstep
      exact .inr ⟨_, mode', hstep, hsound⟩

end Mode

/-! ## Some characters -/

open Mode

/-- Inside a token another token follows: the one that the reader is in the middle of, unless
that goes wrong. -/
theorem leads_tokensFrom {mode : Mode} (hmode : mode ≠ free) (h : mode.Sound) (cs : List Char) :
    ∃ t ts, tokensFrom mode cs = t :: ts ∧ (t.Whole → mode.Leads t) := by
  induction cs generalizing mode with
  | nil =>
    cases mode with
    | free => exact absurd rfl hmode
    | name | text | escape | codeUnit => exact ⟨_, [], rfl, False.elim⟩
    | number part literal =>
      rw [tokensFrom, finish]
      cases part.isComplete with
      | true => exact ⟨_, [], rfl, fun _ => ⟨_, rfl, List.prefix_rfl⟩⟩
      | false => exact ⟨_, [], rfl, False.elim⟩
  | cons c cs ih =>
    rw [tokensFrom_cons]
    obtain ⟨t, hstep, ht⟩ | ⟨mode', hstep, hmode', hsound, hleads⟩ | ⟨t, ht, hstep | hstep⟩ :=
      step_cases hmode h c
    · rw [hstep]
      exact ⟨t, [], rfl, fun hwhole => absurd hwhole ht⟩
    · rw [hstep]
      obtain ⟨t, ts, heq, ht⟩ := ih hmode' hsound
      exact ⟨t, ts, heq, fun hwhole => hleads t (ht hwhole)⟩
    · rw [hstep]
      exact ⟨t, _, rfl, ht⟩
    · rw [hstep]
      cases (start c).2 with
      | none => exact ⟨t, _, rfl, ht⟩
      | some mode' => exact ⟨t, _, rfl, ht⟩

/-- Where the text ends, the reader leaves a stub of whatever it was in the middle of. -/
theorem stub_finish {mode : Mode} (h : mode.Sound) {t : Token} (ht : t.Whole)
    (hleads : mode.Leads t) : Stub t mode.finish := by
  cases mode with
  | free => exact .nothing t
  | name token letter letters =>
    cases hleads
    obtain rfl | ⟨b, rfl⟩ := h
    · exact .null
    · exact .bool b
  | number part literal =>
    obtain ⟨l, rfl, hbegins⟩ := hleads
    obtain ⟨c, cs, rfl, hcomplete⟩ := h
    have hc : c ∈ (c :: cs).reverse := List.mem_reverse.mpr List.mem_cons_self
    have hdigit : c.isDigit = true := ht c (hbegins.subset hc)
    rw [finish, if_pos (hcomplete hdigit)]
    exact .number (List.ne_nil_of_mem hc) hbegins
  | text p | escape p | codeUnit p digits =>
    obtain ⟨hchars, s, rfl⟩ := hleads
    have hcut : p.cut = .atEnd := by
      cases hp : p.chars with
      | none => rw [hp] at hchars; cases hchars
      | some cs => rw [Partial.cut, hp]; rfl
    rw [finish, hcut]
    exact .text s

/-- The tokens of a text by where it is cut: those of the first part as far as they are complete,
and what follows from the mode there, at the end of the text as well as before the second part. -/
theorem exists_mode_of_append {mode : Mode} (h : mode.Sound) (cs more : List Char)
    (hwhole : ∀ t ∈ tokensFrom mode (cs ++ more), t.Whole) :
    ∃ ts mode', mode'.Sound ∧ tokensFrom mode cs = ts ++ mode'.finish ∧
      tokensFrom mode (cs ++ more) = ts ++ tokensFrom mode' more := by
  induction cs generalizing mode with
  | nil => exact ⟨[], mode, h, rfl, rfl⟩
  | cons c cs ih =>
    rw [List.cons_append, tokensFrom_cons] at hwhole ⊢
    rw [tokensFrom_cons]
    obtain ⟨ts, hstep, t, ht, hfault⟩ | ⟨ts, mode', hstep, hsound⟩ := sound_step h c
    · rw [hstep] at hwhole
      exact absurd (hwhole t ht) hfault
    · rw [hstep] at hwhole ⊢
      obtain ⟨ts', mode'', hsound', hfirst, hall⟩ :=
        ih hsound fun t ht => hwhole t (List.mem_append_right ts ht)
      refine ⟨ts ++ ts', mode'', hsound', ?_, ?_⟩
      · rw [List.append_assoc, ← hfirst]
      · rw [List.append_assoc, ← hall]

/-- **Blanks.** A text without tokens is made of blanks. -/
theorem tokens_eq_nil_iff {cs : List Char} : tokens cs = [] ↔ ∀ c ∈ cs, IsBlank c := by
  induction cs with
  | nil => simp [tokens, tokensFrom, finish]
  | cons c cs ih =>
    have hstep : Mode.free.step c = start c := rfl
    rw [tokens, tokensFrom_cons, List.forall_mem_cons, ← ih, tokens, hstep]
    obtain ⟨hblank, hc⟩ | ⟨hblank, ⟨t, hc⟩ | hc | ⟨mode, hc, hmode, hsound⟩⟩ := start_cases c
    · simp [hc, hblank]
    · simp [hc, hblank]
    · simp [hc, hblank]
    · obtain ⟨t, ts, hts, _⟩ := leads_tokensFrom hmode hsound cs
      simp [hc, hblank, hts]

/-- **Text that breaks off.** If the tokens of a text are whole and more than blanks is missing at
its end, the tokens before one of them are there, and of this one a stub. -/
theorem exists_stub {cs more : List Char} (hwhole : ∀ t ∈ tokens (cs ++ more), t.Whole)
    (hmore : ∃ c ∈ more, ¬IsBlank c) :
    ∃ before t after stub, tokens (cs ++ more) = before ++ t :: after ∧ Stub t stub ∧
      tokens cs = before ++ stub := by
  have hfree : Mode.free.Sound := trivial
  obtain ⟨before, mode, hsound, hcs, hall⟩ := exists_mode_of_append hfree cs more hwhole
  obtain ⟨t, after, htokens, hleads⟩ :
      ∃ t after, tokensFrom mode more = t :: after ∧ (t.Whole → mode.Leads t) := by
    by_cases hmode : mode = free
    · subst hmode
      cases htokens : tokens more with
      | nil =>
        obtain ⟨c, hc, hblank⟩ := hmore
        exact absurd (tokens_eq_nil_iff.mp htokens c hc) hblank
      | cons t after => exact ⟨t, after, htokens, fun _ => trivial⟩
    · exact leads_tokensFrom hmode hsound more
  rw [htokens] at hall
  have ht : t.Whole := hwhole t (by rw [tokens, hall]; simp)
  exact ⟨before, t, after, mode.finish, hall, stub_finish hsound ht (hleads ht), hcs⟩

/-! ## Values -/

/-- All tokens of a value are whole. -/
def Whole (v : Json) : Prop :=
  ∀ rest : List Token, (∀ t ∈ rest, t.Whole) → ∀ t ∈ v.spell rest, t.Whole

theorem whole_null : Whole null :=
  fun _ hrest => List.forall_mem_cons.mpr ⟨trivial, hrest⟩

theorem whole_text (s : String) : Whole (text s) :=
  fun _ hrest => List.forall_mem_cons.mpr ⟨rfl, hrest⟩

theorem whole_array {items : List Json} (h : ∀ v ∈ items, v.Whole) : Whole (array items) := by
  have hitems : ∀ vs : List Json, (∀ v ∈ vs, v.Whole) → ∀ rest : List Token,
      (∀ t ∈ rest, t.Whole) → ∀ t ∈ spellItems vs rest, t.Whole := by
    intro vs hvs rest hrest
    induction vs with
    | nil => exact hrest
    | cons v vs ih =>
      obtain ⟨hv, hvs⟩ := List.forall_mem_cons.mp hvs
      exact List.forall_mem_cons.mpr ⟨trivial, hv _ (ih hvs)⟩
  intro rest hrest
  have hclose : ∀ t ∈ Token.arrayClose :: rest, t.Whole :=
    List.forall_mem_cons.mpr ⟨trivial, hrest⟩
  cases items with
  | nil => exact List.forall_mem_cons.mpr ⟨trivial, hclose⟩
  | cons v vs =>
    obtain ⟨hv, hvs⟩ := List.forall_mem_cons.mp h
    exact List.forall_mem_cons.mpr ⟨trivial, hv _ (hitems vs hvs _ hclose)⟩

theorem whole_object {members : List (String × Json)} (h : ∀ m ∈ members, m.2.Whole) :
    Whole (object members) := by
  have hmember : ∀ (k : String) (v : Json) (rest : List Token), v.Whole → (∀ t ∈ rest, t.Whole) →
      ∀ t ∈ Token.text (some k.toList) :: .colon :: v.spell rest, t.Whole := by
    intro k v rest hv hrest
    exact List.forall_mem_cons.mpr ⟨rfl, List.forall_mem_cons.mpr ⟨trivial, hv _ hrest⟩⟩
  have hmembers : ∀ ms : List (String × Json), (∀ m ∈ ms, m.2.Whole) → ∀ rest : List Token,
      (∀ t ∈ rest, t.Whole) → ∀ t ∈ spellMembers ms rest, t.Whole := by
    intro ms hms rest hrest
    induction ms with
    | nil => exact hrest
    | cons m ms ih =>
      obtain ⟨hm, hms⟩ := List.forall_mem_cons.mp hms
      exact List.forall_mem_cons.mpr ⟨trivial, hmember m.1 m.2 _ hm (ih hms)⟩
  intro rest hrest
  have hclose : ∀ t ∈ Token.objectClose :: rest, t.Whole :=
    List.forall_mem_cons.mpr ⟨trivial, hrest⟩
  cases members with
  | nil => exact List.forall_mem_cons.mpr ⟨trivial, hclose⟩
  | cons m ms =>
    obtain ⟨hm, hms⟩ := List.forall_mem_cons.mp h
    exact List.forall_mem_cons.mpr ⟨trivial, hmember m.1 m.2 _ hm (hmembers ms hms _ hclose)⟩

/-- The text of an object ends with its brace. -/
theorem exists_write_object (members : List (String × Json)) :
    ∃ front, (object members).write [] = front ++ ['\x7d'] := by
  cases members with
  | nil => exact ⟨['\x7b'], rfl⟩
  | cons m ms =>
    obtain ⟨k, v⟩ := m
    refine ⟨'\x7b' :: (writeText k [] ++ ':' :: (v.write [] ++ writeMembers ms [])), ?_⟩
    rw [write, writeText_append, write_append v, writeMembers_append ms]
    simp

end Concordance.Json
