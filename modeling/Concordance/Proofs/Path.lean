import Concordance.Path
import Concordance.Proofs.Text.Runs

/-!
# The directories of a path

Each of the directories of a path is the text before one of its slashes (`mem_directories`), and
something follows that slash. So the steps of a directory are the first steps of the path and not
all of them (`steps_of_mem_directories`), the directory has the same start, and no fault of its
own that the path does not have. Its own directories are those that stand before it in the path
(`directories_of_eq_append`).

Where every part of a path is a step on, each step has a stage (`length_stages`), and the last
directory is just one step before the path (`steps_of_directories_eq_concat`).
-/

namespace Concordance

namespace Path

open Text

/-- A part that leads on is not empty. -/
theorem stage_eq {seen part : List Char} {q : String} (h : q ∈ stage seen part) :
    part ≠ [] ∧ q = String.ofList seen.reverse := by
  unfold stage at h
  split at h
  · cases h
  · next hpart =>
    refine ⟨?_, List.mem_singleton.mp h⟩
    rintro rfl
    exact hpart rfl

/-- Where a stage is still to come, so is a part, and with it a step. -/
theorem runsFrom_ne_nil_of_stagesFrom {seen part cs : List Char}
    (h : stagesFrom seen part cs ≠ []) : runsFrom (· != '/') part cs ≠ [] := by
  induction cs generalizing seen part with
  | nil =>
    obtain ⟨q, hq⟩ := List.exists_mem_of_ne_nil _ h
    obtain ⟨hpart, _⟩ := stage_eq hq
    obtain ⟨c, cs, rfl⟩ := List.exists_cons_of_ne_nil hpart
    simp [runsFrom, closeRun]
  | cons c cs ih =>
    rw [stagesFrom] at h
    rw [runsFrom]
    by_cases hc : c = '/'
    · rw [if_pos hc] at h
      rw [if_neg (by simp [hc])]
      cases part with
      | cons d part => simp [closeRun]
      | nil =>
        -- There is no stage here, since no part ends here.
        have hnone : stage seen [] = [] := rfl
        rw [hnone, List.nil_append] at h
        rw [closeRun, List.nil_append]
        exact ih h
    · rw [if_neg hc] at h
      rw [if_pos (by simpa using hc)]
      exact ih h

/-- All stages but the last end before a slash that some part follows. The characters of `part`,
if there are any, are the newest of `seen`. -/
theorem mem_dropLast_stagesFrom {seen part cs : List Char} (hseen : part ≠ [] → seen ≠ [])
    {q : String} (hq : q ∈ (stagesFrom seen part cs).dropLast) :
    q.toList ≠ [] ∧ ∃ before after, cs = before ++ '/' :: after ∧
      q.toList = seen.reverse ++ before ∧ runs (· != '/') after ≠ [] := by
  induction cs generalizing seen part with
  | nil =>
    -- At most one stage ends with the path, and it is the last.
    have hone : (stage seen part).dropLast = [] := by
      unfold stage
      split <;> rfl
    rw [stagesFrom, hone] at hq
    cases hq
  | cons c cs ih =>
    rw [stagesFrom] at hq
    by_cases hc : c = '/'
    · subst hc
      rw [if_pos rfl] at hq
      by_cases hlater : stagesFrom ('/' :: seen) [] cs = []
      · have hone : (stage seen part ++ []).dropLast = [] := by
          unfold stage
          split <;> rfl
        rw [hlater, hone] at hq
        cases hq
      · rw [List.dropLast_append_of_ne_nil hlater] at hq
        rcases List.mem_append.mp hq with hq | hq
        · obtain ⟨hpart, rfl⟩ := stage_eq hq
          have hparts : runs (· != '/') cs ≠ [] := runsFrom_ne_nil_of_stagesFrom hlater
          rw [String.toList_ofList]
          refine ⟨by simpa using hseen hpart, [], cs, rfl, ?_, hparts⟩
          rw [List.append_nil]
        · obtain ⟨hne, before, after, rfl, htext, hparts⟩ := ih (by simp) hq
          exact ⟨hne, '/' :: before, after, rfl, by simpa using htext, hparts⟩
    · rw [if_neg hc] at hq
      obtain ⟨hne, before, after, rfl, htext, hparts⟩ := ih (by simp) hq
      exact ⟨hne, c :: before, after, rfl, by simpa using htext, hparts⟩

theorem stage_cases (seen part : List Char) :
    stage seen part = [] ∨ stage seen part = [String.ofList seen.reverse] := by
  unfold stage
  split
  · exact .inl rfl
  · exact .inr rfl

/-- The text of a stage has this stage last, after those that stand before it in the path. -/
theorem stagesFrom_of_eq_append {seen part cs : List Char} {before after : List String}
    {q : String} (h : stagesFrom seen part cs = before ++ q :: after) :
    ∃ front, q.toList = seen.reverse ++ front ∧ stagesFrom seen part front = before ++ [q] := by
  induction cs generalizing seen part before with
  | nil =>
    rw [stagesFrom] at h
    rcases stage_cases seen part with hstage | hstage
    · simp [hstage] at h
    · obtain ⟨rfl, rfl, rfl⟩ : before = [] ∧ q = String.ofList seen.reverse ∧ after = [] := by
        rw [hstage, List.singleton_eq_append_iff] at h
        simpa [eq_comm] using h
      exact ⟨[], by simp, by rw [stagesFrom, hstage]; rfl⟩
  | cons c cs ih =>
    rw [stagesFrom] at h
    by_cases hc : c = '/'
    · rw [if_pos hc] at h
      rcases stage_cases seen part with hstage | hstage
      · rw [hstage, List.nil_append] at h
        obtain ⟨front, hq, hfront⟩ := ih h
        refine ⟨c :: front, by simpa using hq, ?_⟩
        rw [stagesFrom, if_pos hc, hstage, List.nil_append, hfront]
      · rw [hstage, List.singleton_append] at h
        -- The stage that ends here is the first one.
        rcases List.cons_eq_append_iff.mp h with ⟨rfl, hhead⟩ | ⟨before', rfl, hrest⟩
        · obtain ⟨rfl, -⟩ := List.cons_eq_cons.mp hhead
          exact ⟨[], by simp, by rw [stagesFrom, hstage]; rfl⟩
        · obtain ⟨front, hq, hfront⟩ := ih hrest
          refine ⟨c :: front, by simpa using hq, ?_⟩
          rw [stagesFrom, if_pos hc, hstage, hfront]
          rfl
    · rw [if_neg hc] at h
      obtain ⟨front, hq, hfront⟩ := ih h
      refine ⟨c :: front, by simpa using hq, ?_⟩
      rw [stagesFrom, if_neg hc, hfront]

/-- The stages of a directory of a path are those up to it in the path. -/
theorem stages_of_eq_append {path q : String} {before after : List String}
    (h : directories path = before ++ q :: after) : stages q = before ++ [q] := by
  have hne : stages path ≠ [] := by
    intro hnil
    rw [directories, hnil] at h
    simp at h
  have hlast : directories path ++ [(stages path).getLast hne] = stages path :=
    List.dropLast_concat_getLast hne
  have hstages : stages path = before ++ q :: (after ++ [(stages path).getLast hne]) := by
    rw [← List.cons_append, ← List.append_assoc, ← h, hlast]
  obtain ⟨front, hq, hfront⟩ := stagesFrom_of_eq_append hstages
  have hfront' : q.toList = front := by simpa using hq
  rw [stages, hfront', hfront]

/-- The directories of a directory of a path are those that stand before it in the path. -/
theorem directories_of_eq_append {path q : String} {before after : List String}
    (h : directories path = before ++ q :: after) : directories q = before := by
  rw [directories, stages_of_eq_append h, List.dropLast_concat]

example : directories "data/notes/today.json" = ["data", "data/notes"] := by decide +kernel

/-- A directory of a path is the text before a slash that some part follows. -/
theorem mem_directories {path q : String} (h : q ∈ directories path) :
    q.toList ≠ [] ∧
      ∃ after, path.toList = q.toList ++ '/' :: after ∧ runs (· != '/') after ≠ [] := by
  rw [directories, stages] at h
  obtain ⟨hne, before, after, hpath, hq, hparts⟩ := mem_dropLast_stagesFrom (by simp) h
  have hbefore : q.toList = before := by simpa using hq
  exact ⟨hne, after, by rw [hpath, hbefore], hparts⟩

theorem ne_empty_of_mem_directories {path q : String} (h : q ∈ directories path) : q ≠ "" := by
  rintro rfl
  exact (mem_directories h).1 rfl

theorem steps_of_mem_directories {path q : String} (h : q ∈ directories path) :
    ∃ s more, steps path = steps q ++ s :: more := by
  obtain ⟨_, after, hpath, hparts⟩ := mem_directories h
  obtain ⟨part, rest, hafter⟩ := List.exists_cons_of_ne_nil hparts
  have hsplit : runs (· != '/') path.toList =
      runs (· != '/') q.toList ++ runs (· != '/') after := by
    rw [hpath]
    exact runsFrom_append_cons (by decide) [] q.toList after
  rw [steps, hsplit, hafter, List.map_append, List.map_cons]
  exact ⟨_, _, rfl⟩

/-! ## One stage for each step -/

theorem length_stage {part : List Char} (h : ['.'] ∉ closeRun part) (seen : List Char) :
    (stage seen part).length = (closeRun part).length := by
  cases part with
  | nil => rfl
  | cons c part =>
    have hpart : c :: part ≠ ['.'] := by
      intro heq
      rw [heq] at h
      exact h List.mem_cons_self
    have hcut : ((c :: part).isEmpty || c :: part == ['.'] && seen != c :: part) = false := by
      simp [beq_eq_false_iff_ne.mpr hpart]
    rw [stage, hcut]
    rfl

theorem length_stagesFrom {part cs : List Char} (h : ['.'] ∉ runsFrom (· != '/') part cs)
    (seen : List Char) :
    (stagesFrom seen part cs).length = (runsFrom (· != '/') part cs).length := by
  induction cs generalizing seen part with
  | nil => exact length_stage h seen
  | cons c cs ih =>
    rw [runsFrom] at h ⊢
    rw [stagesFrom]
    by_cases hc : c = '/'
    · have hslash : ¬(c != '/') = true := by simp [hc]
      rw [if_neg hslash, List.mem_append, not_or] at h
      rw [if_neg hslash, if_pos hc, List.length_append, List.length_append, length_stage h.1,
        ih h.2]
    · have hslash : (c != '/') = true := by simpa using hc
      rw [if_pos hslash] at h
      rw [if_pos hslash, if_neg hc, ih h]

/-- Where no part of a path stays where it is, each of its parts ends a stage. -/
theorem length_stages {path : String} (h : .here ∉ steps path) :
    (stages path).length = (steps path).length := by
  have hruns : ['.'] ∉ runs (· != '/') path.toList := by
    intro hmem
    exact h (List.mem_map.mpr ⟨['.'], hmem, rfl⟩)
  rw [stages, steps, List.length_map]
  exact length_stagesFrom hruns []

/-- The last directory of a path is one step before it. -/
theorem steps_of_directories_eq_concat {path q : String} {before : List String}
    (h : directories path = before ++ [q]) (hhere : .here ∉ steps path) :
    ∃ s, steps path = steps q ++ [s] := by
  have hq : q ∈ directories path := by rw [h]; exact List.mem_append_right _ List.mem_cons_self
  obtain ⟨s, more, hsteps⟩ := steps_of_mem_directories hq
  have hhere' : .here ∉ steps q := by
    intro hmem
    exact hhere (hsteps ▸ List.mem_append_left _ hmem)
  have hlength : (steps q).length = before.length + 1 := by
    rw [← length_stages hhere', stages_of_eq_append h, List.length_append, List.length_singleton]
  have hpath : (steps path).length = before.length + 2 := by
    have hdrop := congrArg List.length h
    rw [directories, List.length_dropLast, length_stages hhere, List.length_append,
      List.length_singleton] at hdrop
    omega
  have hmore : more = [] := by
    rw [hsteps, List.length_append, List.length_cons] at hpath
    exact List.eq_nil_of_length_eq_zero (by omega)
  exact ⟨s, by rw [hsteps, hmore]⟩

/-- A path without directories has at most one step. -/
theorem length_steps_of_directories_eq_nil {path : String} (h : directories path = [])
    (hhere : .here ∉ steps path) : (steps path).length ≤ 1 := by
  have hdrop := congrArg List.length h
  rw [directories, List.length_dropLast, length_stages hhere, List.length_nil] at hdrop
  omega

/-! ## Start and faults -/

theorem start_of_mem_directories {path q : String} (h : q ∈ directories path) :
    start q = start path := by
  obtain ⟨hne, after, hpath, _⟩ := mem_directories h
  obtain ⟨c, cs, hq⟩ := List.exists_cons_of_ne_nil hne
  rw [start, start, hpath, hq]
  rfl

/-- Only the path without text is missing because of its text. -/
theorem fault?_ne_notFound {path : String} (h : path ≠ "") : fault? path ≠ some .notFound := by
  rw [fault?, String.isEmpty_eq_false_iff.mpr h]
  simp only [Bool.false_eq_true, if_false]
  split
  · exact nofun
  · split <;> exact nofun

/-- What faults no path faults none of its directories. -/
theorem fault?_of_mem_directories {path q : String} (h : q ∈ directories path)
    (hpath : fault? path = none) : fault? q = none := by
  obtain ⟨_, after, htext, _⟩ := mem_directories h
  have happend : path = q ++ String.ofList ('/' :: after) := by
    rw [← String.toList_inj, String.toList_append, String.toList_ofList]
    exact htext
  have hsize : q.utf8ByteSize ≤ path.utf8ByteSize := by
    rw [happend, String.utf8ByteSize_append]
    omega
  have hempty : q.isEmpty = false :=
    String.isEmpty_eq_false_iff.mpr (ne_empty_of_mem_directories h)
  unfold fault? at hpath ⊢
  rw [hempty]
  split at hpath
  · cases hpath
  · split at hpath
    · cases hpath
    · next hnul =>
      split at hpath
      · cases hpath
      · next hlong =>
        have hnul' : q.toList.contains '\x00' = false := by
          simp only [htext, List.contains_eq_mem, List.mem_append, decide_eq_true_eq] at hnul
          simpa using fun hmem => hnul (Or.inl hmem)
        have hlong' : ¬lengthLimit ≤ q.utf8ByteSize := by omega
        rw [hnul', if_neg hlong']
        rfl

end Path

end Concordance
