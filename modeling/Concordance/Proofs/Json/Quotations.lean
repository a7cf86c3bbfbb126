import Concordance.Json.Printer
import Concordance.Proofs.Json.Numbers

/-!
# Quotations

What may stand between quotation marks (`Written`). A character of a text may stand for itself or
be escaped, by a letter, by its code unit, or by the two halves of a surrogate pair. A half that
lacks the other one may be written, too, but then the text is no list of characters.

A quoted text is read as one token, the characters that its pieces are (`tokensFrom_quoted`). What
the printer writes for a text is such a quotation (`written_flatMap`), so every character comes
back from its escape (`tokensFrom_writeText`).
-/

namespace Concordance.Json

/-- What a quoted text is made of. -/
inductive Piece where
  /-- A character, in whichever way it is written. -/
  | whole (c : Char)
  /-- The first half of a surrogate pair, with the ten bits that it gives. -/
  | high (bits : Fin 0x400)
  /-- The second half. -/
  | low (bits : Fin 0x400)
  deriving DecidableEq, Repr

namespace Piece

/-- What an escaped code unit is. -/
def ofUnit (unit : Nat) : Piece :=
  if hhigh : 0xD800 ≤ unit ∧ unit ≤ 0xDBFF then high ⟨unit - 0xD800, by omega⟩
  else if hlow : 0xDC00 ≤ unit ∧ unit ≤ 0xDFFF then low ⟨unit - 0xDC00, by omega⟩
  else whole (Char.ofNat unit)

/-- The characters that some pieces are, unless a half stands alone. -/
def chars? : List Piece → Option (List Char)
  | [] => some []
  | whole c :: ps => (chars? ps).map (c :: ·)
  | high h :: low l :: ps => (chars? ps).map (Char.ofNat (0x10000 + h * 0x400 + l) :: ·)
  | high _ :: _ | low _ :: _ => none

end Piece

/-- What may stand between quotation marks for some pieces. -/
inductive Written : List Char → List Piece → Prop where
  | nil : Written [] []
  | plain {c : Char} {cs : List Char} {ps : List Piece} (quotes : c ≠ '"') (escapes : c ≠ '\\')
      (controls : ¬c.toNat < 0x20) (rest : Written cs ps) : Written (c :: cs) (.whole c :: ps)
  | letter {l e : Char} {cs : List Char} {ps : List Piece} (stands : escape? l = some e)
      (rest : Written cs ps) : Written ('\\' :: l :: cs) (.whole e :: ps)
  | unit {a b c d : Char} {unit : Nat} {cs : List Char} {ps : List Piece}
      (digits : unit? [a, b, c, d] = some unit) (rest : Written cs ps) :
      Written ('\\' :: 'u' :: a :: b :: c :: d :: cs) (.ofUnit unit :: ps)

/-! ## Reading -/

theorem utf8Size_of_hexValue? {c : Char} {n : Nat} (h : hexValue? c = some n) :
    c.utf8Size = 1 := by
  have hle (last : Char) (hlast : last.val ≤ 127) (hc : c ≤ last) : c.utf8Size = 1 :=
    Char.utf8Size_eq_one_iff.mpr (UInt32.le_trans hc hlast)
  unfold hexValue? at h
  split at h
  · next hdigit =>
    rw [Char.isDigit, Bool.and_eq_true, decide_eq_true_eq, decide_eq_true_eq] at hdigit
    exact hle '9' (by decide) hdigit.2
  split at h
  · next hsmall => exact hle 'f' (by decide) hsmall.2
  split at h
  · next hcapital => exact hle 'F' (by decide) hcapital.2
  · cases h

/-- An escaped code unit is read as a whole: its digits fill the four bytes with the last one, and
not before. -/
theorem tokensFrom_codeUnit {p : Partial} {a b c d : Char} {unit : Nat}
    (hunit : unit? [a, b, c, d] = some unit) (rest : List Char) :
    tokensFrom (.text p) ('\\' :: 'u' :: a :: b :: c :: d :: rest) =
      tokensFrom (.text (p.pushUnit unit)) rest := by
  obtain ⟨va, ha, hdigits⟩ := Option.bind_eq_some_iff.mp hunit
  obtain ⟨vb, hb, hdigits⟩ := Option.bind_eq_some_iff.mp hdigits
  obtain ⟨vc, hc, hdigits⟩ := Option.bind_eq_some_iff.mp hdigits
  obtain ⟨vd, hd, -⟩ := Option.bind_eq_some_iff.mp hdigits
  have ha := utf8Size_of_hexValue? ha
  have hb := utf8Size_of_hexValue? hb
  have hc := utf8Size_of_hexValue? hc
  have hd := utf8Size_of_hexValue? hd
  -- The backslash and the letter, then the digits one by one; the last one completes the unit.
  have hopen : (Mode.text p).step '\\' = ([], some (.escape p)) := rfl
  have hmark : (Mode.escape p).step 'u' = ([], some (.codeUnit p [])) := rfl
  have hfirst : (Mode.codeUnit p []).step a = ([], some (.codeUnit p [a])) :=
    if_pos (by simp [Mode.byteLength, ha])
  have hsecond : (Mode.codeUnit p [a]).step b = ([], some (.codeUnit p [a, b])) :=
    if_pos (by simp [Mode.byteLength, ha, hb])
  have hthird : (Mode.codeUnit p [a, b]).step c = ([], some (.codeUnit p [a, b, c])) :=
    if_pos (by simp [Mode.byteLength, ha, hb, hc])
  have hlast : (Mode.codeUnit p [a, b, c]).step d = ([], some (.text (p.pushUnit unit))) := by
    rw [Mode.step, if_neg (by simp [Mode.byteLength, ha, hb, hc, hd])]
    simp [hunit]
  rw [tokensFrom_silent hopen, tokensFrom_silent hmark, tokensFrom_silent hfirst,
    tokensFrom_silent hsecond, tokensFrom_silent hthird, tokensFrom_silent hlast]

/-- A text that is being read, with one more piece. -/
def Partial.add (p : Partial) : Piece → Partial
  | .whole c => p.push c
  | .high h => p.pushUnit (0xD800 + h)
  | .low l => p.pushUnit (0xDC00 + l)

/-- A code unit is read as the piece that it is. -/
theorem Partial.pushUnit_eq (p : Partial) (unit : Nat) :
    p.pushUnit unit = p.add (.ofUnit unit) := by
  unfold Piece.ofUnit
  split
  · next hhigh => simp only [add, Nat.add_sub_cancel' hhigh.1]
  split
  · next hlow => simp only [add, Nat.add_sub_cancel' hlow.1]
  · next hhigh hlow =>
    rw [add, pushUnit, push]
    cases p.lead with
    | none => simp only [hhigh, hlow, if_false]
    | some high => simp only [hlow, if_false]

/-- Quoted pieces are read one by one, up to the quotation mark. -/
theorem tokensFrom_written {cs : List Char} {ps : List Piece} (h : Written cs ps) (p : Partial)
    (rest : List Char) :
    tokensFrom (.text p) (cs ++ '"' :: rest) =
      (ps.foldl Partial.add p).token :: tokensFrom .free rest := by
  induction h generalizing p with
  | nil =>
    have hstep : (Mode.text p).step '"' = ([p.token], some .free) := rfl
    exact tokensFrom_token hstep rest
  | @plain c cs ps quotes escapes controls _ ih =>
    have hstep : (Mode.text p).step c = ([], some (.text (p.push c))) := by
      rw [Mode.step, if_neg quotes, if_neg escapes, if_neg controls]
    rw [List.cons_append, tokensFrom_silent hstep, ih]
    rfl
  | @letter l e cs ps stands _ ih =>
    have hopen : (Mode.text p).step '\\' = ([], some (.escape p)) := rfl
    have hu : l ≠ 'u' := by
      rintro rfl
      cases stands
    have hread : (Mode.escape p).step l = ([], some (.text (p.push e))) := by
      rw [Mode.step, if_neg hu, stands]
    rw [List.cons_append, List.cons_append, tokensFrom_silent hopen, tokensFrom_silent hread, ih]
    rfl
  | unit digits _ ih =>
    have hread := tokensFrom_codeUnit (p := p) digits
    rw [Partial.pushUnit_eq] at hread
    exact (hread _).trans (ih _)

theorem Partial.chars_add {p : Partial} (h : p.chars = none) (x : Piece) :
    (p.add x).chars = none := by
  have hunit (unit : Nat) : (p.pushUnit unit).chars = none := by
    rw [pushUnit]
    split
    · split
      · exact Option.map_eq_none_iff.mpr h
      · rfl
    split
    · exact h
    split
    · rfl
    · exact Option.map_eq_none_iff.mpr h
  cases x with
  | whole c =>
    rw [add, push]
    split
    · rfl
    · exact Option.map_eq_none_iff.mpr h
  | high h => exact hunit _
  | low l => exact hunit _

/-- A half without the other one spoils a text for good. -/
theorem Partial.token_foldl_of_chars {p : Partial} (h : p.chars = none) (ps : List Piece) :
    (ps.foldl add p).token = .text none := by
  induction ps generalizing p with
  | nil =>
    rw [List.foldl_nil, token]
    split
    · rfl
    · rw [h]
      rfl
  | cons x ps ih => exact ih (chars_add h x)

theorem Partial.add_high (acc : List Char) (h : Fin 0x400) :
    add ⟨some acc, none⟩ (.high h) = ⟨some acc, some (0xD800 + h)⟩ := by
  rw [add, pushUnit, if_pos (by omega)]

theorem Partial.add_low (acc : List Char) (h l : Fin 0x400) :
    add ⟨some acc, some (0xD800 + h)⟩ (.low l) =
      ⟨some (Char.ofNat (0x10000 + h * 0x400 + l) :: acc), none⟩ := by
  have hlow : 0xDC00 ≤ 0xDC00 + l.val ∧ 0xDC00 + l.val ≤ 0xDFFF := by omega
  simp only [add, pushUnit, hlow, and_self, if_true, Nat.add_sub_cancel_left, Option.map_some]

/-- Only the second half may follow the first one. -/
theorem Partial.token_foldl_lead (acc : List Char) (h : Fin 0x400) {ps : List Piece}
    (hps : ∀ l rest, ps ≠ .low l :: rest) :
    (ps.foldl add ⟨some acc, some (0xD800 + h)⟩).token = .text none := by
  cases ps with
  | nil => rfl
  | cons x ps =>
    refine token_foldl_of_chars ?_ ps
    cases x with
    | whole c => rfl
    | high h' =>
      have hlow : ¬(0xDC00 ≤ 0xD800 + h'.val ∧ 0xD800 + h'.val ≤ 0xDFFF) := by omega
      simp only [add, pushUnit, hlow, if_false, broken]
    | low l => exact absurd rfl (hps l ps)

/-- **Quoted texts.** Pieces that are read become the characters that they are. -/
theorem Partial.token_foldl (acc : List Char) (ps : List Piece) :
    (ps.foldl add ⟨some acc, none⟩).token = .text ((Piece.chars? ps).map (acc.reverse ++ ·)) := by
  -- Along `chars?`: a first half is followed by a second one, or by something else.
  induction ps using Piece.chars?.induct generalizing acc with
  | case1 =>
    rw [Piece.chars?, List.foldl_nil, token, Option.map_some, Option.map_some, List.append_nil]
  | case2 c ps ih =>
    have hpush : add ⟨some acc, none⟩ (.whole c) = ⟨some (c :: acc), none⟩ := rfl
    rw [List.foldl_cons, hpush, ih, Piece.chars?, Option.map_map]
    simp [Function.comp_def]
  | case3 h l ps ih =>
    rw [List.foldl_cons, add_high, List.foldl_cons, add_low, ih, Piece.chars?, Option.map_map]
    simp [Function.comp_def]
  | case4 h ps hps =>
    have hnone : Piece.chars? (.high h :: ps) = none := by
      rw [Piece.chars?]
      exact hps
    rw [List.foldl_cons, add_high, token_foldl_lead acc h hps, hnone]
    rfl
  | case5 l ps =>
    have hbroken : add ⟨some acc, none⟩ (.low l) = broken := by
      rw [add, pushUnit, if_neg (by omega), if_pos (by omega)]
    rw [List.foldl_cons, hbroken, token_foldl_of_chars rfl, Piece.chars?]
    rfl

/-- A quoted text is read as one token. -/
theorem tokensFrom_quoted {cs : List Char} {ps : List Piece} (h : Written cs ps)
    (rest : List Char) :
    tokensFrom .free ('"' :: cs ++ '"' :: rest) =
      .text (Piece.chars? ps) :: tokensFrom .free rest := by
  have hstep : Mode.free.step '"' = ([], some (.text ⟨some [], none⟩)) := rfl
  rw [List.cons_append, tokensFrom_silent hstep, tokensFrom_written h, Partial.token_foldl]
  simp

/-! ## Written texts -/

/-- The four digits of an escaped character give it back. -/
theorem unit?_escaped : ∀ n < 0x20,
    unit? ['0', '0', hexDigit (n / 16), hexDigit (n % 16)] = some n := by
  decide

/-- A character is written as one piece. -/
theorem written_escaped (c : Char) {cs : List Char} {ps : List Piece} (h : Written cs ps) :
    Written (escaped c ++ cs) (.whole c :: ps) := by
  unfold escaped
  split
  · next hc => subst hc; exact .letter rfl h
  split
  · next hc => subst hc; exact .letter rfl h
  split
  · next hc => subst hc; exact .letter rfl h
  split
  · next hc => subst hc; exact .letter rfl h
  split
  · next hc => subst hc; exact .letter rfl h
  split
  · next hc => subst hc; exact .letter rfl h
  split
  · next hc => subst hc; exact .letter rfl h
  split
  · next hlow =>
    have hunit := Written.unit (unit?_escaped c.toNat hlow) h
    rwa [Piece.ofUnit, dif_neg (by omega), dif_neg (by omega), Char.ofNat_toNat] at hunit
  · next hquote hbackslash _ _ _ _ _ hcontrol => exact .plain hquote hbackslash hcontrol h

theorem written_flatMap (cs : List Char) : Written (cs.flatMap escaped) (cs.map .whole) := by
  induction cs with
  | nil => exact .nil
  | cons c cs ih => exact written_escaped c ih

theorem Piece.chars?_map_whole (cs : List Char) : chars? (cs.map whole) = some cs := by
  induction cs with
  | nil => rfl
  | cons c cs ih => rw [List.map_cons, chars?, ih, Option.map_some]

/-- **Written texts.** A written text is read as one token, whatever its characters are. -/
theorem tokensFrom_writeText (s : String) (rest : List Char) :
    tokensFrom .free (writeText s rest) = .text (some s.toList) :: tokensFrom .free rest := by
  have hread := tokensFrom_quoted (written_flatMap s.toList) rest
  rwa [Piece.chars?_map_whole] at hread

end Concordance.Json
