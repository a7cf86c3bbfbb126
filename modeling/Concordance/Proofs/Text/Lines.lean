import Concordance.Text.Lines

/-!
# Cutting a stream into lines

`CutsInto bytes ls` says what the lines of a stream are: it is cut after each line feed, the line
feed is dropped with one carriage return before it, and what follows the last line feed is a line of
its own, as it stands, if there is anything. The lines that are read from a stream are these
(`cutsInto_iff`), and a line is read as the text whose bytes it is (`decodeLine?_eq_some_iff`).
-/

namespace Concordance.Text

/-- The lines of a stream. -/
inductive CutsInto : List UInt8 → List (List UInt8) → Prop where
  | empty : CutsInto [] []
  /-- The last line need not have an end. -/
  | unended {line : List UInt8} (ne : line ≠ []) (feedless : 10 ∉ line) : CutsInto line [line]
  | feed {line bytes : List UInt8} {ls : List (List UInt8)} (feedless : 10 ∉ line)
      (returnless : line.getLast? ≠ some 13) (later : CutsInto bytes ls) :
      CutsInto (line ++ 10 :: bytes) (line :: ls)
  | returnFeed {line bytes : List UInt8} {ls : List (List UInt8)} (feedless : 10 ∉ line)
      (later : CutsInto bytes ls) : CutsInto (line ++ 13 :: 10 :: bytes) (line :: ls)

/-- Bytes that are no line feed belong to the line that is being read. -/
theorem linesFrom_append {line : List UInt8} (h : 10 ∉ line) (seen rest : List UInt8) :
    linesFrom seen (line ++ rest) = linesFrom (line.reverse ++ seen) rest := by
  induction line generalizing seen with
  | nil => rfl
  | cons b line ih =>
    have hb : b ≠ 10 := by
      rintro rfl
      exact h List.mem_cons_self
    rw [List.cons_append, linesFrom, if_neg hb, ih (List.not_mem_of_not_mem_cons h)]
    simp

theorem linesFrom_feed (seen rest : List UInt8) :
    linesFrom seen (10 :: rest) = chompReturn seen :: linesFrom [] rest := by
  rw [linesFrom, if_pos rfl]

theorem chompReturn_of_ne {line : List UInt8} (h : line.getLast? ≠ some 13) :
    chompReturn line.reverse = line := by
  unfold chompReturn
  split
  · next rest hrest =>
    have hline : line = rest.reverse ++ [13] := by
      rw [← List.reverse_reverse line, hrest, List.reverse_cons]
    rw [hline, List.getLast?_concat] at h
    exact absurd rfl h
  · exact List.reverse_reverse line

theorem lines_of_cutsInto {bytes : List UInt8} {ls : List (List UInt8)} (h : CutsInto bytes ls) :
    lines bytes = ls := by
  induction h with
  | empty => rfl
  | @unended line ne feedless =>
    have hlines := linesFrom_append feedless [] []
    rw [List.append_nil, List.append_nil, linesFrom] at hlines
    rw [lines, hlines]
    simp [ne]
  | feed feedless returnless _ ih =>
    rw [lines, linesFrom_append feedless, List.append_nil, linesFrom_feed,
      chompReturn_of_ne returnless]
    exact congrArg _ ih
  | @returnFeed line bytes _ feedless _ ih =>
    have hfeedless : 10 ∉ line ++ [13] := by simp [feedless]
    have hlines : lines (line ++ 13 :: 10 :: bytes) =
        chompReturn (line ++ [13]).reverse :: lines bytes := by
      rw [lines, ← List.singleton_append (x := 13), ← List.append_assoc,
        linesFrom_append hfeedless, List.append_nil, linesFrom_feed]
      rfl
    rw [hlines, ih, List.reverse_concat, chompReturn, List.reverse_reverse]

/-- The lines of what has been seen of one, newest byte first, and of what follows. -/
theorem cutsInto_linesFrom {seen : List UInt8} (h : 10 ∉ seen) (bytes : List UInt8) :
    CutsInto (seen.reverse ++ bytes) (linesFrom seen bytes) := by
  induction bytes generalizing seen with
  | nil =>
    rw [List.append_nil, linesFrom]
    cases seen with
    | nil => exact .empty
    | cons b seen =>
      have hline : 10 ∉ (b :: seen).reverse := by rwa [List.mem_reverse]
      exact .unended (by simp) hline
  | cons b bytes ih =>
    by_cases hb : b = 10
    · subst hb
      rw [linesFrom_feed]
      have hrest : CutsInto bytes (linesFrom [] bytes) := ih List.not_mem_nil
      cases seen with
      | nil => exact .feed List.not_mem_nil (by simp) hrest
      | cons c seen =>
        by_cases hc : c = 13
        · subst hc
          have hseen : 10 ∉ seen.reverse := by
            rw [List.mem_reverse]
            exact List.not_mem_of_not_mem_cons h
          rw [List.reverse_cons, List.append_assoc, chompReturn]
          exact .returnFeed hseen hrest
        · have hlast : (c :: seen).reverse.getLast? ≠ some 13 := by simpa using hc
          have hchomp := chompReturn_of_ne hlast
          rw [List.reverse_reverse] at hchomp
          have hline : 10 ∉ (c :: seen).reverse := by rwa [List.mem_reverse]
          rw [hchomp]
          exact .feed hline hlast hrest
    · rw [linesFrom, if_neg hb]
      have hseen : 10 ∉ b :: seen := by simp [h, Ne.symm hb]
      have hcut := ih hseen
      rwa [List.reverse_cons, List.append_assoc, List.singleton_append] at hcut

/-- **The lines that are read** are those of the stream. -/
theorem cutsInto_iff {bytes : List UInt8} {ls : List (List UInt8)} :
    CutsInto bytes ls ↔ lines bytes = ls := by
  refine ⟨lines_of_cutsInto, ?_⟩
  rintro rfl
  exact cutsInto_linesFrom List.not_mem_nil bytes

/-! ## Texts of lines -/

/-- The bytes of a text. -/
def encodeLine (text : String) : List UInt8 :=
  text.toUTF8.data.toList

theorem encodeLine_eq (text : String) :
    encodeLine text = text.toList.flatMap String.utf8EncodeChar := by
  have hbytes : text.toUTF8 = text.toList.utf8Encode := by
    rw [String.toUTF8_eq_toByteArray, ← String.toByteArray_ofList, String.ofList_toList]
  rw [encodeLine, hbytes, List.utf8Encode, List.data_toByteArray]

/-- A byte below 128 encodes the character with its number, and is in the code of no other. -/
theorem toNat_eq_of_mem_utf8EncodeChar {c : Char} {b : UInt8} (h : b ∈ String.utf8EncodeChar c)
    (hb : b < 128) : c.toNat = b.toNat := by
  -- The bytes of a longer code have their highest bit set.
  have hne {x m : UInt8} (hm : 128 ≤ m) : b ≠ x ||| m := by
    rintro rfl
    have hle : m.toNat ≤ (x ||| m).toNat := by
      rw [UInt8.toNat_or]
      exact Nat.right_le_or
    rw [UInt8.lt_iff_toNat_lt] at hb
    rw [UInt8.le_iff_toNat_le] at hm
    omega
  have hsize : c.utf8Size = 1 ∨ c.utf8Size = 2 ∨ c.utf8Size = 3 ∨ c.utf8Size = 4 := by
    have hpos := c.utf8Size_pos
    have hle := c.utf8Size_le_four
    omega
  rcases hsize with hone | htwo | hthree | hfour
  · rw [String.utf8EncodeChar_eq_singleton hone, List.mem_singleton] at h
    have hsmall : c.toNat ≤ 127 := UInt32.le_iff_toNat_le.mp (Char.utf8Size_eq_one_iff.mp hone)
    rw [h, UInt32.toNat_toUInt8]
    exact (Nat.mod_eq_of_lt (by omega)).symm
  · rw [String.utf8EncodeChar_eq_cons_cons htwo] at h
    simp [hne] at h
  · rw [String.utf8EncodeChar_eq_cons_cons_cons hthree] at h
    simp [hne] at h
  · rw [String.utf8EncodeChar_eq_cons_cons_cons_cons hfour] at h
    simp [hne] at h

/-- A byte below 128 stands in a text's bytes only if its character stands in the text. -/
theorem exists_toNat_eq_of_mem_encodeLine {text : String} {b : UInt8} (h : b ∈ encodeLine text)
    (hb : b < 128) : ∃ c ∈ text.toList, c.toNat = b.toNat := by
  rw [encodeLine_eq, List.mem_flatMap] at h
  obtain ⟨c, hc, h⟩ := h
  exact ⟨c, hc, toNat_eq_of_mem_utf8EncodeChar h hb⟩

theorem decodeLine?_eq_some_iff {bytes : List UInt8} {text : String} :
    decodeLine? bytes = some text ↔ encodeLine text = bytes := by
  have hbytes : (⟨bytes.toArray⟩ : ByteArray) = text.toUTF8 ↔ encodeLine text = bytes := by
    rw [encodeLine, ByteArray.ext_iff, ← Array.toList_inj, eq_comm]
  rw [decodeLine?, ← hbytes]
  by_cases hvalid : ByteArray.IsValidUTF8 ⟨bytes.toArray⟩
  · rw [String.fromUTF8?, dif_pos hvalid, Option.some.injEq, ← String.toByteArray_inj]
    rfl
  · rw [String.fromUTF8?, dif_neg hvalid]
    refine iff_of_false nofun fun h => hvalid ?_
    rw [h]
    exact text.isValidUTF8

/-- A line that is not read is that of no text. -/
theorem decodeLine?_eq_none_iff {bytes : List UInt8} :
    decodeLine? bytes = none ↔ ∀ text : String, encodeLine text ≠ bytes := by
  simp only [Option.eq_none_iff_forall_ne_some, ne_eq, decodeLine?_eq_some_iff]

end Concordance.Text
