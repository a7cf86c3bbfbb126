import Concordance.Error
import Concordance.Proofs.Text.Lines
import Concordance.Proofs.Text.Runs

/-!
# Texts of one line

A text without line feeds and carriage returns (`OneLine`) is one line of whatever it is written to:
with a line feed after it, its bytes are cut into this line and no other (`OneLine.cutsInto`). The
fields of a line are such texts, whatever the line is, since line breaks are blanks; and so is any
text in quotation marks, since line breaks are escaped there.
-/

namespace Concordance.Text

/-- A text without line breaks. -/
def OneLine (text : String) : Prop :=
  ∀ c ∈ text.toList, c ≠ '\n' ∧ c ≠ '\r'

instance (text : String) : Decidable (OneLine text) :=
  List.decidableBAll _ text.toList

/-- For texts that are written out: their characters are read off, and need not be decoded. -/
theorem OneLine.ofList {cs : List Char} (h : '\n' ∉ cs ∧ '\r' ∉ cs) :
    OneLine (String.ofList cs) := by
  intro c hc
  rw [String.toList_ofList] at hc
  exact ⟨fun heq => h.1 (heq ▸ hc), fun heq => h.2 (heq ▸ hc)⟩

@[simp]
theorem oneLine_append {a b : String} : OneLine (a ++ b) ↔ OneLine a ∧ OneLine b := by
  rw [OneLine, String.toList_append, List.forall_mem_append]
  rfl

theorem OneLine.append {a b : String} (ha : OneLine a) (hb : OneLine b) : OneLine (a ++ b) :=
  oneLine_append.mpr ⟨ha, hb⟩

theorem OneLine.intercalate {sep : String} (hsep : OneLine sep) {texts : List String}
    (h : ∀ text ∈ texts, OneLine text) : OneLine (sep.intercalate texts) := by
  induction texts with
  | nil => exact List.forall_mem_nil _
  | cons text texts ih =>
    obtain ⟨htext, htexts⟩ := List.forall_mem_cons.mp h
    cases texts with
    | nil => simpa using htext
    | cons next texts =>
      rw [String.intercalate_cons_cons]
      simp [htext, hsep, ih htexts]

theorem OneLine.join {texts : List String} (h : ∀ text ∈ texts, OneLine text) :
    OneLine (String.join texts) := by
  intro c hc
  rw [String.toList_join, List.mem_flatMap] at hc
  obtain ⟨text, htext, hc⟩ := hc
  exact h text htext c hc

/-! ## Fields and quotations -/

/-- Line breaks are blanks. -/
theorem oneLine_of_isBlank {text : String} (h : ∀ c ∈ text.toList, isBlank c = false) :
    OneLine text := by
  intro c hc
  have hc := h c hc
  constructor <;> rintro rfl <;> exact absurd hc (by decide)

/-- A field has no line breaks, even if the line has some. -/
theorem oneLine_of_mem_fields {line field : String} (h : field ∈ fields line) : OneLine field :=
  oneLine_of_isBlank fun _ => isBlank_of_mem_fields h

theorem OneLine.of_isDigit {text : String} (h : ∀ c ∈ text.toList, c.isDigit = true) :
    OneLine text := by
  intro c hc
  have hc := h c hc
  constructor <;> rintro rfl <;> exact absurd hc (by decide)

theorem ne_break_of_mem_hexDigits {n : Nat} {c : Char} (h : c ∈ hexDigits n) :
    c ≠ '\n' ∧ c ≠ '\r' := by
  rw [hexDigits] at h
  induction n using Nat.base_induction 16 (by decide) with
  | single n hn =>
    rw [Nat.toDigits_of_lt_base hn, List.mem_singleton] at h
    exact h ▸ ⟨Nat.digitChar_ne _ (by decide), Nat.digitChar_ne _ (by decide)⟩
  | digit m k hk hm ih =>
    rw [← Nat.toDigits_append_toDigits (by decide) hm hk, List.mem_append,
      Nat.toDigits_of_lt_base hk, List.mem_singleton] at h
    rcases h with h | rfl
    · exact ih h
    · exact ⟨Nat.digitChar_ne _ (by decide), Nat.digitChar_ne _ (by decide)⟩

/-- Line breaks are escaped in quotations. -/
theorem ne_break_of_mem_quotedChar {mark c d : Char} (hmark : mark ≠ '\n' ∧ mark ≠ '\r')
    (h : d ∈ quotedChar mark c) : d ≠ '\n' ∧ d ≠ '\r' := by
  have hpair {e : Char} (he : e ≠ '\n' ∧ e ≠ '\r') (h : d ∈ ['\\', e]) : d ≠ '\n' ∧ d ≠ '\r' := by
    rcases List.mem_cons.mp h with rfl | h
    · decide
    · exact List.mem_singleton.mp h ▸ he
  unfold quotedChar at h
  split at h
  · next hc =>
    rcases hc with rfl | rfl
    · exact hpair hmark h
    · exact hpair (by decide) h
  split at h
  · exact hpair (by decide) h
  split at h
  · exact hpair (by decide) h
  split at h
  · exact hpair (by decide) h
  split at h
  · exact hpair (by decide) h
  split at h
  · -- The number of the character, in digits and braces.
    simp only [List.cons_append, List.mem_cons, List.mem_append, List.not_mem_nil, or_false] at h
    rcases h with rfl | rfl | rfl | h | rfl
    · decide
    · decide
    · decide
    · exact ne_break_of_mem_hexDigits h
    · decide
  · next hfeed hreturn _ =>
    rw [List.mem_singleton.mp h]
    exact ⟨hfeed, hreturn⟩

theorem oneLine_quoteText (text : String) : OneLine (quoteText text) := by
  intro c hc
  rw [quoteText, String.toList_ofList] at hc
  simp only [List.mem_cons, List.mem_append, List.mem_flatMap, List.not_mem_nil, or_false] at hc
  rcases hc with (rfl | ⟨d, -, hc⟩) | rfl
  · decide
  · exact ne_break_of_mem_quotedChar (by decide) hc
  · decide

theorem oneLine_quoteChar (c : Char) : OneLine (quoteChar c) := by
  intro d hd
  rw [quoteChar, String.toList_ofList] at hd
  simp only [List.mem_cons, List.mem_append, List.not_mem_nil, or_false] at hd
  rcases hd with (rfl | hd) | rfl
  · decide
  · exact ne_break_of_mem_quotedChar (by decide) hd
  · decide

theorem oneLine_quoteList (texts : List String) : OneLine (quoteList texts) := by
  have hquoted : OneLine (", ".intercalate (texts.map quoteText)) := by
    refine .intercalate (.ofList (by decide)) fun text htext => ?_
    obtain ⟨original, -, rfl⟩ := List.mem_map.mp htext
    exact oneLine_quoteText original
  exact .append (.append (.ofList (by decide)) hquoted) (.ofList (by decide))

/-! ## Lines of bytes -/

/-- A line break is no byte of a text of one line. -/
theorem OneLine.notMem_encodeLine {text : String} (h : OneLine text) {b : UInt8}
    (hb : b = 10 ∨ b = 13) : b ∉ encodeLine text := by
  intro hmem
  have hsmall : b < 128 := by
    rcases hb with rfl | rfl <;> decide
  obtain ⟨c, hc, hcode⟩ := exists_toNat_eq_of_mem_encodeLine hmem hsmall
  obtain ⟨hfeed, hreturn⟩ := h c hc
  rcases hb with rfl | rfl
  · exact hfeed (Char.toNat_inj.mp hcode)
  · exact hreturn (Char.toNat_inj.mp hcode)

/-- A text of one line with a line feed after it is cut into this line alone. -/
theorem OneLine.cutsInto {text : String} (h : OneLine text) :
    CutsInto (encodeLine (text ++ "\n")) [encodeLine text] := by
  have hbytes : encodeLine (text ++ "\n") = encodeLine text ++ [10] := by
    rw [encodeLine_eq, String.toList_append, List.flatMap_append, ← encodeLine_eq]
    rfl
  rw [hbytes]
  refine .feed (h.notMem_encodeLine (.inl rfl)) (fun hlast => ?_) .empty
  exact h.notMem_encodeLine (.inr rfl) (List.mem_of_getLast? hlast)

end Concordance.Text
