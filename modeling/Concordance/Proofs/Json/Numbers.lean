import Concordance.Json.Token

/-!
# Numbers

The tokens of a text come character by character: a character that completes no token leaves only
another mode (`tokensFrom_silent`), and one that completes a token adds it (`tokensFrom_token`).

A number is the one token whose end is seen only by what follows it, so the text after it must not
go on with it (`EndsNumber`). Before such a text a number literal is read whole
(`tokensFrom_number`). Number literals are described by the parts that the reader goes through; the
grammar of JSON describes numbers by their digits (`Numeral`), and they are number literals
(`Numeral.isNumber`).
-/

namespace Concordance.Json

/-! ## One character -/

/-- The tokens of a text by its first character: those that it completes, and those of the rest
if the reader goes on. -/
theorem tokensFrom_cons (mode : Mode) (c : Char) (cs : List Char) :
    tokensFrom mode (c :: cs) =
      match mode.step c with
      | (ts, none) => ts
      | (ts, some mode') => ts ++ tokensFrom mode' cs := by
  rw [tokensFrom]
  split <;> simp_all

/-- A character that completes no token. -/
theorem tokensFrom_silent {mode mode' : Mode} {c : Char} (h : mode.step c = ([], some mode'))
    (cs : List Char) : tokensFrom mode (c :: cs) = tokensFrom mode' cs := by
  rw [tokensFrom_cons, h]
  rfl

/-- A character that completes a token. -/
theorem tokensFrom_token {mode mode' : Mode} {c : Char} {t : Token}
    (h : mode.step c = ([t], some mode')) (cs : List Char) :
    tokensFrom mode (c :: cs) = t :: tokensFrom mode' cs := by
  rw [tokensFrom_cons, h]
  rfl

/-! ## Numbers -/

/-- The part of a number that its first character leads to. -/
def NumberPart.ofStart? (c : Char) : Option NumberPart :=
  if c = '-' then some minus
  else if c = '0' then some zero
  else if c.isDigit then some whole
  else none

/-- The part of a number that some more characters lead to. -/
def NumberPart.run? (part : NumberPart) : List Char → Option NumberPart
  | [] => some part
  | c :: cs => (part.next? c).bind fun part' => run? part' cs

/-- The number literals of JSON: a start, and characters that lead on to where a number may
end. -/
def IsNumber : List Char → Prop
  | [] => False
  | c :: cs => ∃ part last, NumberPart.ofStart? c = some part ∧ part.run? cs = some last ∧
      last.isComplete = true

/-- No number that could end here goes on with the text. -/
def EndsNumber : List Char → Prop
  | [] => True
  | c :: _ => c.isDigit = false ∧ c ≠ '.' ∧ c ≠ 'e' ∧ c ≠ 'E'

theorem NumberPart.next?_eq_none {part : NumberPart} (h : part.isComplete = true) {c : Char}
    {cs : List Char} (hend : EndsNumber (c :: cs)) : part.next? c = none := by
  obtain ⟨hdigit, hpoint, he, hE⟩ := hend
  cases part with
  | minus | point | exponentMark | exponentSign => cases h
  | zero => simp [next?, next?.mark?, hpoint, he, hE]
  | whole => simp [next?, next?.mark?, hdigit, hpoint, he, hE]
  | fraction => simp [next?, hdigit, he, hE]
  | exponent => simp [next?, hdigit]

/-- A number that may end does so before a text that does not go on with it. -/
theorem tokensFrom_numberEnd {part : NumberPart} (h : part.isComplete = true)
    (literal : List Char) {rest : List Char} (hend : EndsNumber rest) :
    tokensFrom (.number part literal) rest = .number literal.reverse :: tokensFrom .free rest := by
  cases rest with
  | nil => rw [tokensFrom, tokensFrom, Mode.finish, Mode.finish, if_pos h]
  | cons c cs =>
    have hspoils : part.spoils c = false := by
      cases part with
      | zero => exact hend.1
      | minus | whole | point | fraction | exponentMark | exponentSign | exponent => rfl
    have hstep : (Mode.number part literal).step c =
        (.number literal.reverse :: (Mode.start c).1, (Mode.start c).2) := by
      simp [Mode.step, NumberPart.next?_eq_none h hend, h, hspoils]
    rw [tokensFrom_cons, tokensFrom_cons, hstep, Mode.step]
    cases hstart : Mode.start c with
    | mk ts mode? => cases mode? <;> simp

/-- The rest of a number is read up to its end. -/
theorem tokensFrom_numberRest {cs : List Char} {part last : NumberPart}
    (hrun : part.run? cs = some last) (hlast : last.isComplete = true) (literal : List Char)
    {rest : List Char} (hend : EndsNumber rest) :
    tokensFrom (.number part literal) (cs ++ rest) =
      .number (literal.reverse ++ cs) :: tokensFrom .free rest := by
  -- On the characters that are left; `literal` are those that have been read, last one first.
  induction cs generalizing part literal with
  | nil =>
    cases hrun
    rw [List.nil_append, List.append_nil]
    exact tokensFrom_numberEnd hlast literal hend
  | cons c cs ih =>
    rw [NumberPart.run?] at hrun
    obtain ⟨part', hnext, hrun⟩ := Option.bind_eq_some_iff.mp hrun
    have hstep : (Mode.number part literal).step c = ([], some (.number part' (c :: literal))) := by
      simp [Mode.step, hnext]
    rw [List.cons_append, tokensFrom_silent hstep, ih hrun]
    simp

/-- A digit other than zero begins a number; it is none of the signs. -/
theorem start_of_isDigit {c : Char} (hdigit : c.isDigit = true) (hzero : c ≠ '0') :
    Mode.start c = ([], some (.number .whole [c])) := by
  unfold Mode.start
  split
  case h_17 => rw [if_pos hdigit]
  case h_16 => exact absurd rfl hzero
  all_goals exact absurd hdigit (by decide)

theorem start_of_ofStart? {c : Char} {part : NumberPart} (h : NumberPart.ofStart? c = some part) :
    Mode.start c = ([], some (.number part [c])) := by
  unfold NumberPart.ofStart? at h
  split at h
  · next hc => subst hc; cases h; rfl
  · split at h
    · next hc => subst hc; cases h; rfl
    · split at h
      · next hzero hdigit => cases h; exact start_of_isDigit hdigit hzero
      · cases h

/-- **Numbers.** A number literal is read whole before a text that does not go on with it. -/
theorem tokensFrom_number {literal : List Char} (h : IsNumber literal) {rest : List Char}
    (hend : EndsNumber rest) :
    tokensFrom .free (literal ++ rest) = .number literal :: tokensFrom .free rest := by
  cases literal with
  | nil => cases h
  | cons c cs =>
    obtain ⟨part, last, hstart, hrun, hlast⟩ := h
    have hstep : Mode.free.step c = ([], some (.number part [c])) := start_of_ofStart? hstart
    rw [List.cons_append, tokensFrom_silent hstep, tokensFrom_numberRest hrun hlast [c] hend]
    rfl

/-! ## Numerals -/

namespace Numeral

/-- One digit or more. -/
def Digits (cs : List Char) : Prop :=
  cs ≠ [] ∧ ∀ c ∈ cs, c.isDigit = true

/-- The digits before the point. No other one follows a leading zero. -/
inductive Whole : List Char → Prop where
  | zero : Whole ['0']
  | digits {c : Char} {cs : List Char} (leading : c ≠ '0') (h : Digits (c :: cs)) : Whole (c :: cs)

/-- The point and the digits after it, if there are any. -/
inductive Fraction : List Char → Prop where
  | nil : Fraction []
  | digits {cs : List Char} (h : Digits cs) : Fraction ('.' :: cs)

/-- The power of ten, if there is one. -/
inductive Exponent : List Char → Prop where
  | nil : Exponent []
  | digits {mark : Char} {cs : List Char} (marks : mark = 'e' ∨ mark = 'E') (h : Digits cs) :
      Exponent (mark :: cs)
  | signed {mark sign : Char} {cs : List Char} (marks : mark = 'e' ∨ mark = 'E')
      (signs : sign = '+' ∨ sign = '-') (h : Digits cs) : Exponent (mark :: sign :: cs)

end Numeral

/-- The texts of a number. -/
inductive Numeral : List Char → Prop where
  | positive {whole fraction exponent : List Char} (hwhole : Numeral.Whole whole)
      (hfraction : Numeral.Fraction fraction) (hexponent : Numeral.Exponent exponent) :
      Numeral (whole ++ (fraction ++ exponent))
  | negative {whole fraction exponent : List Char} (hwhole : Numeral.Whole whole)
      (hfraction : Numeral.Fraction fraction) (hexponent : Numeral.Exponent exponent) :
      Numeral ('-' :: (whole ++ (fraction ++ exponent)))

namespace NumberPart

open Numeral (Digits Whole Fraction Exponent)

/-- The number that has come to this part can go on with these characters, and end then. -/
def Completes (part : NumberPart) (cs : List Char) : Prop :=
  ∃ last, part.run? cs = some last ∧ last.isComplete = true

/-- The part that a digit leads to, if one may follow. -/
def afterDigit : NumberPart → NumberPart
  | minus | zero | whole => whole
  | point | fraction => fraction
  | exponentMark | exponentSign | exponent => exponent

variable {part next : NumberPart} {cs ds : List Char}

theorem next?_of_isDigit (hpart : part ≠ minus ∧ part ≠ zero) {c : Char}
    (h : c.isDigit = true) : part.next? c = some part.afterDigit := by
  cases part with
  | minus => exact absurd rfl hpart.1
  | zero => exact absurd rfl hpart.2
  | whole | point | fraction | exponentSign | exponent => exact if_pos h
  | exponentMark =>
    have hsign : ¬(c = '+' ∨ c = '-') := by
      rintro (rfl | rfl) <;> exact absurd h (by decide)
    rw [next?, if_neg hsign, if_pos h, afterDigit]

theorem Completes.cons {c : Char} (hnext : part.next? c = some next) (h : next.Completes cs) :
    part.Completes (c :: cs) := by
  obtain ⟨last, hrun, hlast⟩ := h
  refine ⟨last, ?_, hlast⟩
  rw [run?, hnext, Option.bind_some, hrun]

/-- Digits may be added to a digit. -/
theorem Completes.moreDigits (hds : ∀ c ∈ ds, c.isDigit = true)
    (h : part.afterDigit.Completes cs) : part.afterDigit.Completes (ds ++ cs) := by
  have hpart : part.afterDigit ≠ minus ∧ part.afterDigit ≠ zero := by
    cases part <;> exact ⟨nofun, nofun⟩
  have hsame : part.afterDigit.afterDigit = part.afterDigit := by cases part <;> rfl
  induction ds with
  | nil => exact h
  | cons c ds ih =>
    obtain ⟨hc, hds⟩ := List.forall_mem_cons.mp hds
    have hnext := next?_of_isDigit hpart hc
    rw [hsame] at hnext
    exact .cons hnext (ih hds)

theorem Completes.digits (hpart : part ≠ minus ∧ part ≠ zero) (hds : Digits ds)
    (h : part.afterDigit.Completes cs) : part.Completes (ds ++ cs) := by
  obtain ⟨hne, hall⟩ := hds
  obtain ⟨c, ds, rfl⟩ := List.exists_cons_of_ne_nil hne
  obtain ⟨hc, hds⟩ := List.forall_mem_cons.mp hall
  exact .cons (next?_of_isDigit hpart hc) (.moreDigits hds h)

theorem completes_exponent (hpart : part = zero ∨ part = whole ∨ part = fraction)
    (h : Exponent cs) : part.Completes cs := by
  have hmark {mark : Char} (hmark : mark = 'e' ∨ mark = 'E') :
      part.next? mark = some exponentMark := by
    rcases hpart with rfl | rfl | rfl <;> rcases hmark with rfl | rfl <;> rfl
  have hdigits {start : NumberPart} (hstart : start = exponentMark ∨ start = exponentSign)
      {ds : List Char} (hds : Digits ds) : start.Completes ds := by
    have hend : start.afterDigit.Completes [] := by
      rcases hstart with rfl | rfl <;> exact ⟨exponent, rfl, rfl⟩
    have hrest := hend.digits (by rcases hstart with rfl | rfl <;> decide) hds
    rwa [List.append_nil] at hrest
  cases h with
  | nil => exact ⟨part, rfl, by rcases hpart with rfl | rfl | rfl <;> rfl⟩
  | digits marks h => exact .cons (hmark marks) (hdigits (.inl rfl) h)
  | signed marks signs h => exact .cons (hmark marks) (.cons (if_pos signs) (hdigits (.inr rfl) h))

theorem completes_fraction (hpart : part = zero ∨ part = whole) (hds : Fraction ds)
    (h : Exponent cs) : part.Completes (ds ++ cs) := by
  cases hds with
  | nil => exact completes_exponent (hpart.imp_right .inl) h
  | digits hds =>
    have hpoint : part.next? '.' = some point := by rcases hpart with rfl | rfl <;> rfl
    have hrest : fraction.Completes cs := completes_exponent (.inr (.inr rfl)) h
    have hdigits : point.Completes (_ ++ cs) := .digits (by decide) hds hrest
    exact .cons hpoint hdigits

/-- The digits before the point are read after a sign as they are without one. -/
theorem exists_completes_whole (hds : Whole ds)
    (h : ∀ part, part = zero ∨ part = whole → part.Completes cs) :
    ∃ c rest part, ds ++ cs = c :: rest ∧ part.Completes rest ∧ ofStart? c = some part ∧
      minus.next? c = some part := by
  cases hds with
  | zero => exact ⟨'0', cs, zero, rfl, h zero (.inl rfl), rfl, rfl⟩
  | @digits c ds leading hdigits =>
    obtain ⟨hc, hds⟩ := List.forall_mem_cons.mp hdigits.2
    have hminus : c ≠ '-' := by
      rintro rfl
      exact absurd hc (by decide)
    have hrest : whole.afterDigit.Completes cs := h whole (.inr rfl)
    refine ⟨c, ds ++ cs, whole, rfl, hrest.moreDigits hds, ?_, ?_⟩
    · rw [ofStart?, if_neg hminus, if_neg leading, if_pos hc]
    · rw [next?, if_neg leading, if_pos hc]

end NumberPart

open NumberPart in
/-- **Numbers.** The texts of a number are number literals. -/
theorem Numeral.isNumber {literal : List Char} (h : Numeral literal) : IsNumber literal := by
  cases h with
  | positive hwhole hfraction hexponent =>
    obtain ⟨c, cs, part, heq, ⟨last, hrun, hlast⟩, hstart, -⟩ :=
      exists_completes_whole hwhole fun part hpart => completes_fraction hpart hfraction hexponent
    rw [heq]
    exact ⟨part, last, hstart, hrun, hlast⟩
  | negative hwhole hfraction hexponent =>
    obtain ⟨c, cs, part, heq, hcompletes, -, hnext⟩ :=
      exists_completes_whole hwhole fun part hpart => completes_fraction hpart hfraction hexponent
    obtain ⟨last, hrun, hlast⟩ := Completes.cons hnext hcompletes
    rw [heq]
    exact ⟨minus, last, rfl, hrun, hlast⟩

end Concordance.Json
