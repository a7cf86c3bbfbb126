import Concordance.Text.Runs

/-!
# Runs of characters

A character that is not of the class ends a run, so the runs before it and those after it have
nothing to do with each other (`runsFrom_append_cons`). The runs that are found are the maximal
ones, from left to right, with nothing of the class between them (`maximalRuns_iff`). The two
classes that texts are cut by have no character in common (`isBlank_of_isAlphanumeric`): a word lies
within one field.
-/

namespace Concordance.Text

/-- A character that separates runs: those before it and those after it. -/
theorem runsFrom_append_cons {p : Char → Bool} {x : Char} (hx : p x = false)
    (run before after : List Char) :
    runsFrom p run (before ++ x :: after) = runsFrom p run before ++ runs p after := by
  induction before generalizing run with
  | nil => simp [runsFrom, runs, hx]
  | cons c cs ih =>
    rw [List.cons_append, runsFrom, runsFrom]
    split
    · exact ih (c :: run)
    · rw [ih [], List.append_assoc]

/-! ## Maximal runs -/

/-- The maximal runs of a class in a text, from left to right. What follows a run does not go on
with it, and what stands between the runs is not of the class. -/
inductive MaximalRuns (p : Char → Bool) : List Char → List (List Char) → Prop where
  | none {gap : List Char} (outside : ∀ c ∈ gap, p c = false) : MaximalRuns p gap []
  | next {gap run rest : List Char} {later : List (List Char)}
      (outside : ∀ c ∈ gap, p c = false) (nonempty : run ≠ []) (inside : ∀ c ∈ run, p c = true)
      (ends : ∀ c ∈ rest.head?, p c = false) (after : MaximalRuns p rest later) :
      MaximalRuns p (gap ++ run ++ rest) (run :: later)

theorem closeRun_reverse {run : List Char} (h : run ≠ []) : closeRun run.reverse = [run] := by
  cases hrev : run.reverse with
  | nil => exact absurd (List.reverse_eq_nil_iff.mp hrev) h
  | cons c cs => rw [closeRun, ← hrev, List.reverse_reverse]

/-- Characters that are not of the class are passed over. -/
theorem runsFrom_gap {p : Char → Bool} {gap : List Char} (h : ∀ c ∈ gap, p c = false)
    (rest : List Char) : runsFrom p [] (gap ++ rest) = runsFrom p [] rest := by
  induction gap with
  | nil => rfl
  | cons c gap ih =>
    rw [List.cons_append, runsFrom, if_neg (by simp [h c List.mem_cons_self]),
      ih fun c hc => h c (List.mem_cons_of_mem _ hc)]
    rfl

/-- Characters of the class are collected. -/
theorem runsFrom_inside {p : Char → Bool} {run : List Char} (h : ∀ c ∈ run, p c = true)
    (seen rest : List Char) :
    runsFrom p seen (run ++ rest) = runsFrom p (run.reverse ++ seen) rest := by
  induction run generalizing seen with
  | nil => rfl
  | cons c run ih =>
    rw [List.cons_append, runsFrom, if_pos (h c List.mem_cons_self),
      ih fun c hc => h c (List.mem_cons_of_mem _ hc)]
    simp

/-- A run that the text does not go on with is complete. -/
theorem runsFrom_ends {p : Char → Bool} {rest : List Char} (h : ∀ c ∈ rest.head?, p c = false)
    (run : List Char) : runsFrom p run rest = closeRun run ++ runsFrom p [] rest := by
  cases rest with
  | nil => simp [runsFrom, closeRun]
  | cons c cs =>
    have hc : p c = false := h c rfl
    simp [runsFrom, hc, closeRun]

theorem MaximalRuns.runs_eq {p : Char → Bool} {cs : List Char} {rs : List (List Char)}
    (h : MaximalRuns p cs rs) : runs p cs = rs := by
  induction h with
  | @none gap outside =>
    have hgap := runsFrom_gap outside []
    rwa [List.append_nil] at hgap
  | next outside nonempty inside ends _ ih =>
    rw [runs, List.append_assoc, runsFrom_gap outside, runsFrom_inside inside, List.append_nil,
      runsFrom_ends ends, closeRun_reverse nonempty, ← runs, ih]
    rfl

/-- A character in front that is not of the class changes nothing. -/
theorem MaximalRuns.cons {p : Char → Bool} {c : Char} {cs : List Char} {rs : List (List Char)}
    (hc : p c = false) (h : MaximalRuns p cs rs) : MaximalRuns p (c :: cs) rs := by
  cases h with
  | none outside => exact .none (List.forall_mem_cons.mpr ⟨hc, outside⟩)
  | @next gap _ _ _ outside nonempty inside ends after =>
    have hgap : ∀ d ∈ c :: gap, p d = false := List.forall_mem_cons.mpr ⟨hc, outside⟩
    exact .next hgap nonempty inside ends after

/-- A run that has been collected, newest character first, is the first of the runs. -/
theorem MaximalRuns.closeRun {p : Char → Bool} {run rest : List Char} {later : List (List Char)}
    (hrun : ∀ c ∈ run, p c = true) (ends : ∀ c ∈ rest.head?, p c = false)
    (h : MaximalRuns p rest later) :
    MaximalRuns p (run.reverse ++ rest) (Text.closeRun run ++ later) := by
  cases run with
  | nil => exact h
  | cons d run =>
    have hnonempty : (d :: run).reverse ≠ [] := by simp
    have hinside : ∀ c ∈ (d :: run).reverse, p c = true :=
      fun c hc => hrun c (List.mem_reverse.mp hc)
    have hgap : ∀ c ∈ ([] : List Char), p c = false := nofun
    exact .next hgap hnonempty hinside ends h

/-- The runs of a text are maximal, also when a part of the first one has been read. -/
theorem maximalRuns_runsFrom {p : Char → Bool} {run : List Char} (hrun : ∀ c ∈ run, p c = true)
    (cs : List Char) : MaximalRuns p (run.reverse ++ cs) (runsFrom p run cs) := by
  induction cs generalizing run with
  | nil =>
    have hnone : MaximalRuns p [] [] := .none nofun
    have hends : ∀ c ∈ ([] : List Char).head?, p c = false := nofun
    have hend := hnone.closeRun hrun hends
    rwa [List.append_nil (Text.closeRun run)] at hend
  | cons c cs ih =>
    rw [runsFrom]
    cases hc : p c with
    | true =>
      have hrun' : ∀ d ∈ c :: run, p d = true := List.forall_mem_cons.mpr ⟨hc, hrun⟩
      have hnext := ih hrun'
      rwa [List.reverse_cons, List.append_assoc] at hnext
    | false =>
      have hnone : ∀ d ∈ ([] : List Char), p d = true := nofun
      have hrest : MaximalRuns p cs (runsFrom p [] cs) := ih hnone
      have hends : ∀ d ∈ (c :: cs).head?, p d = false := by
        intro d hd
        obtain rfl := Option.some.inj hd
        exact hc
      exact (hrest.cons hc).closeRun hrun hends

/-- **The runs of a text** are its maximal runs, and no other list is. -/
theorem maximalRuns_iff {p : Char → Bool} {cs : List Char} {rs : List (List Char)} :
    MaximalRuns p cs rs ↔ runs p cs = rs := by
  constructor
  · exact MaximalRuns.runs_eq
  · rintro rfl
    have hnone : ∀ c ∈ ([] : List Char), p c = true := nofun
    exact maximalRuns_runsFrom hnone cs

/-- Every character of a run is of the class. -/
theorem MaximalRuns.of_mem {p : Char → Bool} {cs : List Char} {rs : List (List Char)}
    (h : MaximalRuns p cs rs) {run : List Char} (hrun : run ∈ rs) {c : Char} (hc : c ∈ run) :
    p c = true := by
  induction h with
  | none outside => cases hrun
  | next outside nonempty inside ends after ih =>
    rcases List.mem_cons.mp hrun with rfl | hlater
    · exact inside c hc
    · exact ih hlater

/-- Every character of the class is in a run. -/
theorem MaximalRuns.exists_run {p : Char → Bool} {cs : List Char} {rs : List (List Char)}
    (h : MaximalRuns p cs rs) {c : Char} (hc : c ∈ cs) (hp : p c = true) :
    ∃ run ∈ rs, c ∈ run := by
  induction h with
  | none outside =>
    rw [outside c hc] at hp
    cases hp
  | @next gap run rest later outside nonempty inside ends after ih =>
    rcases List.mem_append.mp hc with hc | hc
    · rcases List.mem_append.mp hc with hc | hc
      · rw [outside c hc] at hp
        cases hp
      · exact ⟨run, List.mem_cons_self, hc⟩
    · obtain ⟨run', hrun', hc⟩ := ih hc
      exact ⟨run', List.mem_cons_of_mem _ hrun', hc⟩

theorem isBlank_of_mem_fields {line field : String} (h : field ∈ fields line) {c : Char}
    (hc : c ∈ field.toList) : isBlank c = false := by
  obtain ⟨run, hrun, rfl⟩ := List.mem_map.mp h
  rw [String.toList_ofList] at hc
  simpa using (maximalRuns_iff.mpr rfl).of_mem hrun hc

/-- A line that is not blank has fields. -/
theorem fields_ne_nil {line : String} (h : ∃ c ∈ line.toList, isBlank c = false) :
    fields line ≠ [] := by
  obtain ⟨c, hc, hblank⟩ := h
  have hmaximal : MaximalRuns (fun c => !isBlank c) line.toList _ := maximalRuns_iff.mpr rfl
  obtain ⟨run, hrun, -⟩ := hmaximal.exists_run hc (by simp [hblank])
  exact List.ne_nil_of_mem (List.mem_map_of_mem hrun)

/-! ## Character classes -/

/-- A number that is found in some intervals lies in one of them. -/
theorem exists_mem_of_inRanges {ranges : List (Nat × Nat)} {n : Nat}
    (h : inRanges ranges n = true) : ∃ r ∈ ranges, r.1 ≤ n ∧ n ≤ r.2 := by
  induction ranges with
  | nil => cases h
  | cons head rest ih =>
    obtain ⟨lo, hi⟩ := head
    rw [inRanges] at h
    split at h
    · cases h
    · next hlo =>
      rcases Bool.or_eq_true_iff.mp h with hhi | hrest
      · have hle : n ≤ hi := by simpa using hhi
        exact ⟨(lo, hi), List.mem_cons_self, Nat.le_of_not_lt hlo, hle⟩
      · obtain ⟨r, hr, hbounds⟩ := ih hrest
        exact ⟨r, List.mem_cons_of_mem _ hr, hbounds⟩

/-- No code point of the blank characters is in the table of the alphanumeric ones. -/
theorem inRanges_blankRanges : ∀ r ∈ blankRanges, ∀ k < r.2 + 1 - r.1,
    inRanges alphanumericRanges (r.1 + k) = false := by
  decide +kernel

/-- No character is both alphanumeric and blank. -/
theorem isBlank_of_isAlphanumeric {c : Char} (h : isAlphanumeric c = true) :
    isBlank c = false := by
  cases hblank : isBlank c with
  | false => rfl
  | true =>
    obtain ⟨r, hr, hlo, hhi⟩ := exists_mem_of_inRanges hblank
    have hfalse := inRanges_blankRanges r hr (c.toNat - r.1) (by omega)
    rw [show r.1 + (c.toNat - r.1) = c.toNat by omega] at hfalse
    rw [isAlphanumeric, hfalse] at h
    cases h

end Concordance.Text
