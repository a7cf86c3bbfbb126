import Concordance.Command
import Concordance.Proofs.DocId
import Concordance.Proofs.Snapshot.RoundTrip
import Concordance.Proofs.Snapshot.Schema
import Mathlib.Data.Nat.Digits.Defs

/-!
# Document numbers as decimal numerals

A text is read as a document number exactly when it is a decimal numeral whose value, the sum of its
digits by their places (`placeValue`), is below 2³²; the number is this value, and larger values do
not wrap around (`parse?_map_toNat_eq_some_iff`). Zeros in front do not matter
(`parse?_zeros_append`). The number of a command comes from such a text, and a snapshot may hold
every one of them. `parse_iff_numeral` has all of this.
-/

namespace Concordance.DocId

/-- The value of a decimal numeral: its digits, each by the place where it stands. -/
def placeValue (cs : List Char) : Nat :=
  Nat.ofDigits 10 (cs.reverse.map fun c => c.toNat - '0'.toNat)

/-- Reading digit by digit from the left gives the value. -/
theorem digitsValue_zero (cs : List Char) : digitsValue 0 cs = placeValue cs := by
  rw [placeValue, Nat.ofDigits_eq_foldr, List.foldr_map, List.foldr_reverse, digitsValue]
  simp only [Nat.cast_id, Nat.add_comm]

/-- **The texts of document numbers.** -/
theorem parse?_map_toNat_eq_some_iff {raw : String} {n : Nat} :
    (parse? raw).map UInt32.toNat = some n ↔
      raw ≠ "" ∧ (∀ c ∈ raw.toList, c.isDigit = true) ∧ placeValue raw.toList = n ∧
        n ≤ 4294967295 := by
  have hne : raw ≠ "" ↔ raw.toList ≠ [] := not_congr String.toList_eq_nil_iff.symm
  rw [Option.map_eq_some_iff, hne, ← digitsValue_zero]
  constructor
  · rintro ⟨id, hid, rfl⟩
    obtain ⟨hnonempty, hdigits, hvalue⟩ := parse?_eq_some_iff.mp hid
    exact ⟨hnonempty, hdigits, hvalue, Nat.le_of_lt_succ (UInt32.toNat_lt_size id)⟩
  · rintro ⟨hnonempty, hdigits, rfl, hfits⟩
    have htoNat : (UInt32.ofNat (digitsValue 0 raw.toList)).toNat = digitsValue 0 raw.toList :=
      UInt32.toNat_ofNat_of_lt (Nat.lt_succ_of_le hfits)
    exact ⟨_, parse?_eq_some_iff.mpr ⟨hnonempty, hdigits, htoNat.symm⟩, htoNat⟩

/-- A value of 2³² or more is not wrapped around. -/
theorem parse?_eq_none_of_lt {raw : String} (h : 4294967295 < placeValue raw.toList) :
    parse? raw = none := by
  cases hparse : parse? raw with
  | none => rfl
  | some id =>
    have hnumeral := parse?_map_toNat_eq_some_iff.mp (congrArg (Option.map UInt32.toNat) hparse)
    obtain ⟨-, -, hvalue, hfits⟩ := hnumeral
    omega

/-- Zeros in front of a text add nothing to its value. -/
theorem digitsValue_zeros_append (k : Nat) (cs : List Char) :
    digitsValue 0 (List.replicate k '0' ++ cs) = digitsValue 0 cs := by
  induction k with
  | zero => rfl
  | succ k ih => rw [List.replicate_succ, List.cons_append, ← ih]; rfl

/-- Zeros in front of a text do not matter. -/
theorem parse?_zeros_append {raw : String} (h : raw ≠ "") (k : Nat) :
    parse? (String.ofList (List.replicate k '0') ++ raw) = parse? raw := by
  have hne : raw.toList ≠ [] := fun hnil => h (String.toList_eq_nil_iff.mp hnil)
  refine Option.ext fun id => ?_
  have hdigits : (∀ c ∈ List.replicate k '0' ++ raw.toList, c.isDigit = true) ↔
      ∀ c ∈ raw.toList, c.isDigit = true := by
    rw [List.forall_mem_append, and_iff_right]
    intro c hc
    rw [List.eq_of_mem_replicate hc]
    decide
  rw [parse?_eq_some_iff, parse?_eq_some_iff, String.toList_append, String.toList_ofList,
    digitsValue_zeros_append, hdigits]
  simp [hne]

/-! ## Commands and snapshots -/

/-- The document of a command that indexes is what its first argument gives. -/
theorem parse?_of_ofParts {args words : List String} {id : DocId}
    (h : Command.ofParts "index" args = .ok (.index id words)) :
    ∃ raw texts, args = raw :: texts ∧ parse? raw = some id := by
  have hargs : Command.indexOfArgs args = .ok (.index id words) := h
  unfold Command.indexOfArgs at hargs
  split at hargs
  · next raw text texts =>
    cases hparse : parse? raw with
    | none =>
      rw [hparse] at hargs
      cases hargs
    | some id' =>
      rw [hparse] at hargs
      cases hargs
      exact ⟨raw, text :: texts, rfl, hparse⟩
  · cases hargs

/-- A snapshot may list a document number at any place among others. -/
theorem readIds_append_cons {before after : List Json} {ids ids' : List DocId}
    (hbefore : Snapshot.readIds (.ofJson (.array before)) = .ok ids)
    (hafter : Snapshot.readIds (.ofJson (.array after)) = .ok ids') (id : DocId) :
    Snapshot.readIds (.ofJson (.array (before ++ .number id.text :: after))) =
      .ok (ids ++ id :: ids') := by
  obtain ⟨_, hitems, hids⟩ := Snapshot.readIds_ofJson_iff.mp hbefore
  obtain ⟨_, hitems', hids'⟩ := Snapshot.readIds_ofJson_iff.mp hafter
  cases hitems
  cases hitems'
  have hid : Snapshot.IsId (.number id.text) id :=
    Snapshot.readId_ofJson_iff.mp (Snapshot.readId_idJson id)
  exact Snapshot.readIds_ofJson_iff.mpr
    ⟨_, rfl, List.rel_append hids (.cons hid hids')⟩

/-- A snapshot may have a document number as its only one. -/
theorem ofText_single (id : DocId) :
    Snapshot.ofText ("\x7b\"char\":null,\"doc_ids\":[" ++ id.text ++ "]\x7d") =
      .ok (.node [id] []) := by
  have hwell : (Trie.node [id] []).WellFormed := .node (by simp) .nil (by simp)
  have hrender : Snapshot.render (.node [id] []) =
      "\x7b\"char\":null,\"doc_ids\":[" ++ id.text ++ "]\x7d" := by
    rw [← String.toList_inj, Snapshot.render, String.toList_ofList, Snapshot.writeTrie_leaf]
    simp [Snapshot.writeLabel, Snapshot.writeIds, Snapshot.writeMoreIds]
  rw [← hrender]
  exact Snapshot.ofText_render hwell

/-- **Document numbers are decimal numerals.** The texts that are read as document numbers are the
decimal numerals of values below 2³², with any number of zeros in front, and what is read is the
value. So the text of a number is read as this number, and a larger value is refused. The number
that a command indexes is one of these, and a snapshot may list it, alone or among others. -/
theorem parse_iff_numeral :
    (∀ (raw : String) (n : Nat), (parse? raw).map UInt32.toNat = some n ↔
      raw ≠ "" ∧ (∀ c ∈ raw.toList, c.isDigit = true) ∧ placeValue raw.toList = n ∧
        n ≤ 4294967295) ∧
      (∀ (raw : String) (k : Nat), raw ≠ "" →
        parse? (String.ofList (List.replicate k '0') ++ raw) = parse? raw) ∧
      (∀ id : DocId, parse? (Nat.repr id.toNat) = some id) ∧
      (∀ raw : String, 4294967295 < placeValue raw.toList → parse? raw = none) ∧
      ∀ (args : List String) (id : DocId) (words : List String),
        Command.ofParts "index" args = .ok (.index id words) →
        (∃ raw texts, args = raw :: texts ∧ parse? raw = some id) ∧
        Snapshot.ofText ("\x7b\"char\":null,\"doc_ids\":[" ++ id.text ++ "]\x7d") =
          .ok (.node [id] []) ∧
        ∀ (before after : List Json) (ids ids' : List DocId),
          Snapshot.readIds (.ofJson (.array before)) = .ok ids →
          Snapshot.readIds (.ofJson (.array after)) = .ok ids' →
          Snapshot.readIds (.ofJson (.array (before ++ .number id.text :: after))) =
            .ok (ids ++ id :: ids') := by
  refine ⟨fun raw n => parse?_map_toNat_eq_some_iff, fun raw k hraw => parse?_zeros_append hraw k,
    parse?_text, fun raw => parse?_eq_none_of_lt, fun args id words h => ?_⟩
  refine ⟨parse?_of_ofParts h, ofText_single id, fun before after ids ids' hbefore hafter => ?_⟩
  exact readIds_append_cons hbefore hafter id

/-- The largest number behind zeros, the value after it, and a digit that is no ASCII digit. -/
theorem parse_iff_numeral_largest :
    parse? "0004294967295" = some 4294967295 ∧ parse? "4294967296" = none ∧ parse? "٣" = none ∧
      Command.ofParts "index" ["0004294967295", "tea"] = .ok (.index 4294967295 ["tea"]) ∧
      Snapshot.ofText "\x7b\"char\":null,\"doc_ids\":[4294967295]\x7d" =
        .ok (.node [4294967295] []) ∧
      Snapshot.readIds (.ofJson (.array [.number "7", .number "4294967295"])) =
        .ok [7, 4294967295] := by
  obtain ⟨hnumeral, hzeros, htext, hlarge, hcommand⟩ := parse_iff_numeral
  have hlargest : parse? "4294967295" = some 4294967295 := htext 4294967295
  have hpadded : parse? "0004294967295" = some 4294967295 :=
    (hzeros "4294967295" 3 (by decide)).trans hlargest
  have hforeign : parse? "٣" = none := by
    refine Option.eq_none_iff_forall_ne_some.mpr fun id hid => ?_
    obtain ⟨-, hdigits, -⟩ := (hnumeral "٣" id.toNat).mp (congrArg _ hid)
    exact absurd (hdigits '٣' (by decide)) (by decide)
  have hparts : Command.ofParts "index" ["0004294967295", "tea"] =
      .ok (.index 4294967295 ["tea"]) := by decide +kernel
  obtain ⟨-, hsnapshot, hids⟩ := hcommand _ _ _ hparts
  have hseven : Snapshot.readIds (.ofJson (.array [.number "7"])) = .ok [7] := by rfl
  exact ⟨hpadded, hlarge "4294967296" (by decide), hforeign, hparts, hsnapshot,
    hids [.number "7"] [] [7] [] hseven rfl⟩

end Concordance.DocId
