import Concordance.DocId
import Concordance.Proofs.Json.Tokens

/-!
# The text of a document number

The decimal text of a document number is a number literal of JSON (`isNumber_text`), and it is
read as the number that it was written for (`parse?_text`).
-/

namespace Concordance.DocId

theorem toList_text (id : DocId) : id.text.toList = Nat.toDigits 10 id.toNat :=
  Nat.toList_repr

theorem isDigit_of_mem_text {id : DocId} {c : Char} (h : c ∈ id.text.toList) :
    c.isDigit = true := by
  rw [toList_text] at h
  exact Nat.isDigit_of_mem_toDigits (by decide) (by decide) h

/-- Reading a written number gives it back: its value is that of its digits, and fits. -/
theorem parse?_text (id : DocId) : parse? id.text = some id := by
  have hne : id.text.toList.isEmpty = false := by
    rw [toList_text, List.isEmpty_eq_false_iff]
    exact Nat.toDigits_ne_nil
  have hall : id.text.toList.all Char.isDigit = true :=
    List.all_eq_true.mpr fun c hc => isDigit_of_mem_text hc
  have hvalue : digitsValue 0 id.text.toList = id.toNat := by
    rw [toList_text]
    exact Nat.ofDigitChars_ten_toDigits
  have hfits : id.toNat < UInt32.size := UInt32.toNat_lt_size id
  simp only [parse?, hne, hall, hvalue, hfits, if_true, UInt32.ofNat_toNat]
  rfl

/-- A text is a document number when it has a digit, nothing but digits, and a value that fits. -/
theorem parse?_eq_some_iff {raw : String} {id : DocId} :
    parse? raw = some id ↔ raw.toList ≠ [] ∧ (∀ c ∈ raw.toList, c.isDigit = true) ∧
      digitsValue 0 raw.toList = id.toNat := by
  have hvalue (n : Nat) :
      (if n < UInt32.size then some (UInt32.ofNat n) else none) = some id ↔ n = id.toNat := by
    constructor
    · intro h
      split at h
      · next hfits =>
        cases h
        exact (UInt32.toNat_ofNat_of_lt hfits).symm
      · cases h
    · rintro rfl
      rw [if_pos (UInt32.toNat_lt_size id), UInt32.ofNat_toNat]
  rw [parse?]
  by_cases hdigits : raw.toList ≠ [] ∧ ∀ c ∈ raw.toList, c.isDigit = true
  · have hrefused : (raw.toList.isEmpty || !raw.toList.all Char.isDigit) = false := by
      simpa using hdigits
    rw [hrefused, if_neg (by decide), hvalue, ← and_assoc, and_iff_right hdigits]
  · have hrefused : (raw.toList.isEmpty || !raw.toList.all Char.isDigit) = true := by
      rw [← Bool.not_eq_false]
      simpa using hdigits
    rw [hrefused, if_pos rfl, ← and_assoc]
    exact iff_of_false nofun fun h => hdigits h.1

/-- More digits give no smaller value. -/
theorem le_digitsValue (n : Nat) (cs : List Char) : n ≤ digitsValue n cs := by
  induction cs generalizing n with
  | nil => exact Nat.le_refl n
  | cons c cs ih =>
    have hrest : 10 * n + (c.toNat - '0'.toNat) ≤ digitsValue n (c :: cs) := ih _
    omega

/-- The first digits of a document number are one themselves. -/
theorem exists_parse?_of_prefix {raw raw' : String} {id : DocId} (h : parse? raw = some id)
    (nonempty : raw'.toList ≠ []) (begins : raw'.toList <+: raw.toList) :
    ∃ id', parse? raw' = some id' := by
  obtain ⟨_, hdigits, hvalue⟩ := parse?_eq_some_iff.mp h
  obtain ⟨more, hmore⟩ := begins
  have hle : digitsValue 0 raw'.toList ≤ digitsValue 0 raw.toList := by
    rw [← hmore, digitsValue, digitsValue, List.foldl_append]
    exact le_digitsValue _ more
  have hfits : digitsValue 0 raw'.toList < UInt32.size := by
    have hlt := UInt32.toNat_lt_size id
    omega
  refine ⟨UInt32.ofNat (digitsValue 0 raw'.toList), parse?_eq_some_iff.mpr ⟨nonempty, ?_, ?_⟩⟩
  · intro c hc
    exact hdigits c (by rw [← hmore]; exact List.mem_append_left more hc)
  · exact (UInt32.toNat_ofNat_of_lt hfits).symm

/-! ## A number literal -/

open Json

/-- Digits go on with a whole part. -/
theorem run?_digits {cs : List Char} (h : ∀ c ∈ cs, c.isDigit = true) :
    NumberPart.whole.run? cs = some .whole := by
  induction cs with
  | nil => rfl
  | cons c cs ih =>
    have hnext : NumberPart.whole.next? c = some .whole := by
      rw [NumberPart.next?, if_pos (h c List.mem_cons_self)]
    rw [NumberPart.run?, hnext]
    exact ih fun c hc => h c (List.mem_cons_of_mem _ hc)

/-- The first digit of a positive number is not zero. -/
theorem head_toDigits {n : Nat} (h : 0 < n) :
    ∃ c cs, Nat.toDigits 10 n = c :: cs ∧ c ≠ '0' := by
  -- Digit by digit from the last one, which is the first only where it stands alone.
  induction n using Nat.base_induction 10 (by decide) with
  | single n hn =>
    have hne : ∀ n < 10, 0 < n → Nat.digitChar n ≠ '0' := by decide
    exact ⟨_, [], Nat.toDigits_of_lt_base hn, hne n hn h⟩
  | digit m k hk hm ih =>
    obtain ⟨c, cs, hdigits, hc⟩ := ih hm
    refine ⟨c, cs ++ Nat.toDigits 10 k, ?_, hc⟩
    rw [← Nat.toDigits_append_toDigits (by decide) hm hk, hdigits, List.cons_append]

/-- A written number is a number literal: a zero alone, or digits that do not begin with one. -/
theorem isNumber_text (id : DocId) : IsNumber id.text.toList := by
  have hdigits : ∀ c ∈ id.text.toList, c.isDigit = true := fun c hc => isDigit_of_mem_text hc
  rw [toList_text] at hdigits ⊢
  rcases Nat.eq_zero_or_pos id.toNat with hzero | hpos
  · rw [hzero, Nat.toDigits_zero]
    exact ⟨.zero, .zero, rfl, rfl, rfl⟩
  · obtain ⟨c, cs, heq, hc⟩ := head_toDigits hpos
    rw [heq] at hdigits ⊢
    have hdigit : c.isDigit = true := hdigits c List.mem_cons_self
    have hminus : c ≠ '-' := by
      rintro rfl
      exact absurd hdigit (by decide)
    -- Neither a sign nor a zero, so the first digit begins a whole part.
    refine ⟨.whole, .whole, ?_, run?_digits fun c hc => hdigits c (List.mem_cons_of_mem _ hc), rfl⟩
    rw [NumberPart.ofStart?, if_neg hminus, if_neg hc, if_pos hdigit]

end Concordance.DocId
