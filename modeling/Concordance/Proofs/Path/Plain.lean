import Concordance.Proofs.Path

/-!
# Plain paths

A plain path is relative and enters an entry with each of its parts (`Path.IsPlain`). So it goes
down from the working directory by the names of these parts (`Path.Leads`), and each directory on
the way is reached by the first of them (`Leads.of_mem_directories`).

Of two paths that are apart neither is the other or lies below it (`Path.Apart`). Paths are
compared by their steps: `data/notes` and `data//notes` are the same.
-/

namespace Concordance

namespace Location

/-- The location some names down from the working directory. -/
def below (names : List String) : Location :=
  ⟨.above 0, names⟩

theorem below_inj {names names' : List String} : below names = below names' ↔ names = names' := by
  simp [below]

end Location

namespace Path

/-- The location that a path names. -/
def target (path : String) : Location :=
  (steps path).foldl PathStep.apply (start path)

/-- A relative path on which every part enters what it names. -/
structure IsPlain (path : String) : Prop where
  relative : path.toList.head? ≠ some '/'
  noHere : .here ∉ steps path
  noUp : .up ∉ steps path

instance (path : String) : Decidable (IsPlain path) :=
  decidable_of_iff
    (path.toList.head? ≠ some '/' ∧ .here ∉ steps path ∧ .up ∉ steps path)
    ⟨fun ⟨hrelative, hhere, hup⟩ => ⟨hrelative, hhere, hup⟩,
      fun h => ⟨h.relative, h.noHere, h.noUp⟩⟩

/-- Neither path is the other or lies below it. -/
def Apart (path other : String) : Prop :=
  ¬steps path <+: steps other ∧ ¬steps other <+: steps path

instance (path other : String) : Decidable (Apart path other) :=
  inferInstanceAs (Decidable (_ ∧ _))

theorem foldl_enter (seen names : List String) :
    (names.map .enter).foldl PathStep.apply (.below seen) = .below (seen ++ names) := by
  induction names generalizing seen with
  | nil => rw [List.append_nil]; rfl
  | cons name names ih =>
    rw [List.append_cons]
    exact ih (seen ++ [name])

/-- A path goes down by some names from the working directory. -/
structure Leads (path : String) (names : List String) : Prop where
  start_eq : start path = .workingDirectory
  steps_eq : steps path = names.map .enter

theorem IsPlain.exists_leads {path : String} (h : IsPlain path) : ∃ names, Leads path names := by
  have hstart : start path = .workingDirectory := by
    rw [start, if_neg (by simpa using h.relative)]
  have hsteps (ss : List PathStep) (hhere : .here ∉ ss) (hup : .up ∉ ss) :
      ∃ names : List String, ss = names.map .enter := by
    induction ss with
    | nil => exact ⟨[], rfl⟩
    | cons s ss ih =>
      obtain ⟨names, rfl⟩ := ih (fun hmem => hhere (.tail _ hmem)) fun hmem => hup (.tail _ hmem)
      cases s with
      | here => exact absurd List.mem_cons_self hhere
      | up => exact absurd List.mem_cons_self hup
      | enter name => exact ⟨name :: names, rfl⟩
  obtain ⟨names, hnames⟩ := hsteps _ h.noHere h.noUp
  exact ⟨names, hstart, hnames⟩

namespace Leads

variable {path other q : String} {names names' : List String}

theorem here_notMem (h : Leads path names) : .here ∉ steps path := by
  rw [h.steps_eq]
  simp

theorem target_eq (h : Leads path names) : target path = .below names := by
  rw [target, h.start_eq, h.steps_eq]
  exact foldl_enter [] names

/-- A directory on the way is reached by the first of the names. -/
theorem of_mem_directories (h : Leads path names) (hq : q ∈ directories path) :
    ∃ first name more, names = first ++ name :: more ∧ Leads q first := by
  obtain ⟨s, more, hsteps⟩ := steps_of_mem_directories hq
  rw [h.steps_eq] at hsteps
  obtain ⟨first, rest, rfl, hfirst, hrest⟩ := List.map_eq_append_iff.mp hsteps
  obtain ⟨name, more', rfl, -, -⟩ := List.map_eq_cons_iff.mp hrest
  exact ⟨first, name, more', rfl, (start_of_mem_directories hq).trans h.start_eq, hfirst.symm⟩

/-- The last directory is reached by all names but the last. -/
theorem of_directories_eq_concat (h : Leads path names) {before : List String}
    (hdirs : directories path = before ++ [q]) :
    ∃ first name, names = first ++ [name] ∧ Leads q first := by
  obtain ⟨s, hsteps⟩ := steps_of_directories_eq_concat hdirs h.here_notMem
  have hq : q ∈ directories path := hdirs ▸ List.mem_concat_self
  obtain ⟨first, name, more, rfl, hlead⟩ := h.of_mem_directories hq
  have hmore : more = [] := by
    have hlength := congrArg List.length hsteps
    rw [h.steps_eq, hlead.steps_eq] at hlength
    simp only [List.length_map, List.length_append, List.length_cons, List.length_nil] at hlength
    exact List.eq_nil_of_length_eq_zero (by omega)
  exact ⟨first, name, by rw [hmore], hlead⟩

theorem length_of_directories_eq_nil (h : Leads path names) (hdirs : directories path = []) :
    names.length ≤ 1 := by
  have hlength := length_steps_of_directories_eq_nil hdirs h.here_notMem
  rwa [h.steps_eq, List.length_map] at hlength

end Leads

end Path

end Concordance
