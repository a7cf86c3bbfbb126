import Concordance.Proofs.Arena.Rebuild

/-!
# The misplaced character that is reported

Every record below the root must have the character of its key. When several have not, one of them
is reported, and which one follows from the order in which records are compared with their keys:
at each record the children in the order of their keys, then, from the last child to the first, all
that is below the child. `Earlier` is this order on the places in a snapshot.

* `mislabelledBelow?_eq_none_iff_descendant`: no misplaced record goes unnoticed, at any depth.
* `exists_firstMisplaced`: the record that is reported comes before all others that are misplaced.
* `rebuild_eq`: the loop that makes the nodes in the array, and keeps the children which are still to
  be compared on a stack, finds the same record, or makes the same index.

`ofRecord_verdict` says so of the index that is made from a record.
-/

namespace Concordance.Snapshot

namespace Record

/-- A record below another: the keys that lead to the record which it is a child of, and its key. -/
inductive Descendant : Record → List Char → Char → Record → Prop where
  | child {label : Option Char} {ids : List DocId} {kids : List (Char × Record)} {key : Char}
      {d : Record} (h : (key, d) ∈ kids) : Descendant (.node label ids kids) [] key d
  | deeper {label : Option Char} {ids : List DocId} {kids : List (Char × Record)} {c : Char}
      {r : Record} {path : List Char} {key : Char} {d : Record} (hc : (c, r) ∈ kids)
      (h : Descendant r path key d) : Descendant (.node label ids kids) (c :: path) key d

/-- The order in which two records are compared with their keys. Each is given by the keys that
lead to the record which it is a child of, and its own key. -/
inductive Earlier : List Char → Char → List Char → Char → Prop where
  /-- The children of a record, from the least key to the greatest. -/
  | sibling {c c' : Char} (h : c < c') : Earlier [] c [] c'
  /-- All of them before any record below them. -/
  | child {c k c' : Char} {path : List Char} : Earlier [] c (k :: path) c'
  /-- What is below them, from the greatest key to the least. -/
  | branch {k k' c c' : Char} {path path' : List Char} (h : k' < k) :
      Earlier (k :: path) c (k' :: path') c'
  /-- What is below one of them, in this order again. -/
  | within {k c c' : Char} {path path' : List Char} (h : Earlier path c path' c') :
      Earlier (k :: path) c (k :: path') c'

/-- A record that has not the character of its key, and that is compared before every other one
that has not. -/
structure FirstMisplaced (r : Record) (path : List Char) (key : Char) (d : Record) : Prop where
  descendant : r.Descendant path key d
  misplaced : d.label ≠ some key
  first : ∀ path' key' d', r.Descendant path' key' d' → d'.label ≠ some key' →
    (path' = path ∧ key' = key) ∨ Earlier path key path' key'

/-! ## No misplaced record goes unnoticed -/

/-- Nothing is reported when all records below have the characters of their keys. -/
theorem mislabelledBelow?_eq_none_iff_descendant {r : Record} :
    mislabelledBelow? r = none ↔
      ∀ path key d, r.Descendant path key d → d.label = some key := by
  induction r using Record.induction with
  | node label ids kids ih =>
    rw [mislabelledBelow?_eq_none_iff]
    constructor
    · intro h path key d hd
      cases hd with
      | child hmem => exact (h _ hmem).1
      | deeper hmem hd => exact (ih _ hmem).mp (h _ hmem).2 _ _ _ hd
    · intro h e he
      exact ⟨h [] e.1 e.2 (.child he),
        (ih e he).mpr fun path key d hd => h (e.1 :: path) key d (.deeper he hd)⟩

/-! ## The first one is reported -/

theorem exists_of_mislabelled? {kids : List (Char × Record)} {m : Mislabelling}
    (h : mislabelled? kids = some m) :
    ∃ before key d after, kids = before ++ (key, d) :: after ∧
      (∀ e ∈ before, e.2.label = some e.1) ∧ d.label ≠ some key ∧ m = .child key d.label := by
  induction kids with
  | nil => cases h
  | cons head rest ih =>
    obtain ⟨c, r⟩ := head
    rw [mislabelled?] at h
    split at h
    · next hlabel =>
      obtain ⟨before, key, d, after, rfl, hbefore, hd⟩ := ih h
      exact ⟨(c, r) :: before, key, d, after, rfl, List.forall_mem_cons.mpr ⟨hlabel, hbefore⟩, hd⟩
    · next hlabel =>
      cases h
      exact ⟨[], c, r, rest, rfl, List.forall_mem_nil _, hlabel, rfl⟩

theorem exists_of_mislabelledWithin? {kids : List (Char × Record)} {m : Mislabelling}
    (h : mislabelledWithin? kids = some m) :
    ∃ before c r after, kids = before ++ (c, r) :: after ∧ mislabelledBelow? r = some m ∧
      ∀ e ∈ after, mislabelledBelow? e.2 = none := by
  induction kids with
  | nil => cases h
  | cons head rest ih =>
    obtain ⟨c, r⟩ := head
    rw [mislabelledWithin?] at h
    cases hrest : mislabelledWithin? rest with
    | some m' =>
      rw [hrest] at h
      cases h
      obtain ⟨before, c', r', after, rfl, hr', hafter⟩ := ih hrest
      exact ⟨(c, r) :: before, c', r', after, rfl, hr', hafter⟩
    | none =>
      rw [hrest] at h
      exact ⟨[], c, r, rest, rfl, h, mislabelledWithin?_eq_none_iff.mp hrest⟩

/-- A misplaced child comes before the later children and before all that is below any child. -/
theorem FirstMisplaced.child {label : Option Char} {ids : List DocId}
    {before after : List (Char × Record)} {key : Char} {d : Record}
    (hasc : Children.Ascending (before ++ (key, d) :: after))
    (hbefore : ∀ e ∈ before, e.2.label = some e.1) (hd : d.label ≠ some key) :
    FirstMisplaced (.node label ids (before ++ (key, d) :: after)) [] key d := by
  obtain ⟨-, hafter, -⟩ := List.pairwise_append.mp hasc
  have hless := (List.pairwise_cons.mp hafter).1
  refine ⟨.child (by simp), hd, fun path' key' d' hdesc hd' => ?_⟩
  cases hdesc with
  | deeper _ _ => exact Or.inr .child
  | child hmem =>
    rcases List.mem_append.mp hmem with hmem | hmem
    · exact absurd (hbefore _ hmem) hd'
    rcases List.mem_cons.mp hmem with heq | hmem
    · cases heq
      exact Or.inl ⟨rfl, rfl⟩
    · exact Or.inr (.sibling (hless _ hmem))

/-- When all children are in place, what is first below one of them is first of all, if nothing is
misplaced below a later one. -/
theorem FirstMisplaced.within {label : Option Char} {ids : List DocId}
    {before after : List (Char × Record)} {c : Char} {r : Record} {path : List Char} {key : Char}
    {d : Record} (hasc : Children.Ascending (before ++ (c, r) :: after))
    (hkids : ∀ e ∈ before ++ (c, r) :: after, e.2.label = some e.1)
    (hafter : ∀ e ∈ after, mislabelledBelow? e.2 = none) (h : r.FirstMisplaced path key d) :
    FirstMisplaced (.node label ids (before ++ (c, r) :: after)) (c :: path) key d := by
  obtain ⟨hdesc, hd, hfirst⟩ := h
  obtain ⟨-, -, hless⟩ := List.pairwise_append.mp hasc
  refine ⟨.deeper (by simp) hdesc, hd, fun path' key' d' hdesc' hd' => ?_⟩
  cases hdesc' with
  | child hmem => exact absurd (hkids _ hmem) hd'
  | deeper hmem hdesc' =>
    rcases List.mem_append.mp hmem with hmem | hmem
    · exact Or.inr (.branch (hless _ hmem _ List.mem_cons_self))
    rcases List.mem_cons.mp hmem with heq | hmem
    · cases heq
      rcases hfirst _ _ _ hdesc' hd' with ⟨rfl, rfl⟩ | hearlier
      · exact Or.inl ⟨rfl, rfl⟩
      · exact Or.inr (.within hearlier)
    · have hnone := mislabelledBelow?_eq_none_iff_descendant.mp (hafter _ hmem)
      exact absurd (hnone _ _ _ hdesc') hd'

/-- The record that is reported is the first one that is misplaced. -/
theorem exists_firstMisplaced {r : Record} (hr : r.Ordered) {m : Mislabelling}
    (h : mislabelledBelow? r = some m) :
    ∃ path key d, r.FirstMisplaced path key d ∧ m = .child key d.label := by
  induction r using Record.induction generalizing m with
  | node label ids kids ih =>
    obtain ⟨hasc, hwithin⟩ := hr
    rw [mislabelledBelow?] at h
    cases hkids : mislabelled? kids with
    | some m' =>
      rw [hkids] at h
      cases h
      obtain ⟨before, key, d, after, rfl, hbefore, hd, rfl⟩ := exists_of_mislabelled? hkids
      exact ⟨[], key, d, .child hasc hbefore hd, rfl⟩
    | none =>
      rw [hkids] at h
      obtain ⟨before, c, r, after, rfl, hbelow, hafter⟩ := exists_of_mislabelledWithin? h
      have hmem : (c, r) ∈ before ++ (c, r) :: after := by simp
      obtain ⟨path, key, d, hfirst, rfl⟩ := ih _ hmem (hwithin _ hmem) hbelow
      exact ⟨c :: path, key, d,
        .within hasc (mislabelled?_eq_none_iff.mp hkids) hafter hfirst, rfl⟩

/-- Of two places only one comes before the other. -/
theorem Earlier.asymm {path path' : List Char} {c c' : Char} (h : Earlier path c path' c') :
    ¬Earlier path' c' path c := by
  induction h with
  | sibling h =>
    rintro (h' | _ | _ | _)
    exact Char.lt_asymm h h'
  | child => nofun
  | branch h =>
    rintro (_ | _ | h' | _)
    · exact Char.lt_asymm h h'
    · exact Char.lt_irrefl _ h
  | within h ih =>
    rintro (_ | _ | h' | h')
    · exact Char.lt_irrefl _ h'
    · exact ih h'

/-- There is one record at a place. -/
theorem Descendant.unique {r : Record} (hr : r.Ordered) {path : List Char} {key : Char}
    {d d' : Record} (h : r.Descendant path key d) (h' : r.Descendant path key d') : d = d' := by
  induction h with
  | child hmem =>
    obtain ⟨hasc, -⟩ := hr
    cases h' with
    | child hmem' => exact Children.Ascending.unique hasc hmem hmem'
  | deeper hmem _ ih =>
    obtain ⟨hasc, hwithin⟩ := hr
    cases h' with
    | deeper hmem' h' =>
      obtain rfl := Children.Ascending.unique hasc hmem hmem'
      exact ih (hwithin _ hmem) h'

/-- Only one record is the first that is misplaced. -/
theorem FirstMisplaced.unique {r : Record} (hr : r.Ordered) {path path' : List Char}
    {key key' : Char} {d d' : Record} (h : r.FirstMisplaced path key d)
    (h' : r.FirstMisplaced path' key' d') : key' = key ∧ d' = d := by
  rcases h.first _ _ _ h'.descendant h'.misplaced with ⟨rfl, rfl⟩ | hearlier
  · exact ⟨rfl, h'.descendant.unique hr h.descendant⟩
  rcases h'.first _ _ _ h.descendant h.misplaced with ⟨rfl, rfl⟩ | hlater
  · exact ⟨rfl, h'.descendant.unique hr h.descendant⟩
  · exact absurd hlater hearlier.asymm

/-! ## The loop over a stack -/

/-- The index that the loop makes of a record, one node after the other, as it can be read from the
array then. -/
def rebuild (r : Record) : Option (Except Mislabelling Trie) :=
  match Arena.ofRecord? r with
  | some (.ok a) => a.trie?.map .ok
  | some (.error m) => some (.error m)
  | none => none

/-- The loop comes to an end, and makes the same index or finds the same fault. -/
theorem rebuild_eq {r : Record} (hr : r.Ordered) : r.rebuild = some r.toTrie := by
  have h := Arena.agrees_toTrie hr
  rw [rebuild]
  cases htrie : r.toTrie with
  | error m =>
    rw [htrie, Arena.Agrees] at h
    rw [h]
  | ok t =>
    rw [htrie, Arena.Agrees] at h
    obtain ⟨a, heq, ha⟩ := h
    simp only [heq, ha.trie?_eq, Option.map_some]

end Record

open Record

theorem ofRecord_of_label {r : Record} {c : Char} (h : r.label = some c) :
    ofRecord r = .error (.mislabelled (.root c)) := by
  rw [ofRecord, toTrie, h]

theorem ofRecord_of_mislabelledBelow? {r : Record} (hlabel : r.label = none) {m : Mislabelling}
    (h : r.mislabelledBelow? = some m) : ofRecord r = .error (.mislabelled m) := by
  rw [ofRecord, toTrie, hlabel, h]

theorem ofRecord_of_placed {r : Record} (hlabel : r.label = none)
    (h : r.mislabelledBelow? = none) : ofRecord r = .ok r.strip := by
  rw [ofRecord, toTrie_eq_ok_iff.mpr ⟨hlabel, h, rfl⟩]

/-- A record makes an index when nothing is misplaced, however deep. -/
theorem exists_ofRecord_iff {r : Record} :
    (∃ t, ofRecord r = .ok t) ↔
      r.label = none ∧ ∀ path key d, r.Descendant path key d → d.label = some key := by
  rw [← mislabelledBelow?_eq_none_iff_descendant]
  constructor
  · rintro ⟨t, h⟩
    cases hlabel : r.label with
    | some c => rw [ofRecord_of_label hlabel] at h; cases h
    | none =>
      cases hbelow : r.mislabelledBelow? with
      | some m => rw [ofRecord_of_mislabelledBelow? hlabel hbelow] at h; cases h
      | none => exact ⟨rfl, rfl⟩
  · rintro ⟨hlabel, hbelow⟩
    exact ⟨r.strip, ofRecord_of_placed hlabel hbelow⟩

/-- A record that makes no index is refused for its own character, or for the first misplaced one
below it. -/
theorem ofRecord_eq_error_iff {r : Record} (hr : r.Ordered) {e : SearchError} :
    ofRecord r = .error e ↔
      (∃ c, r.label = some c ∧ e = .mislabelled (.root c)) ∨
      (r.label = none ∧ ∃ path key d, r.FirstMisplaced path key d ∧
        e = .mislabelled (.child key d.label)) := by
  cases hlabel : r.label with
  | some c =>
    rw [ofRecord_of_label hlabel]
    simp [eq_comm]
  | none =>
    cases hbelow : r.mislabelledBelow? with
    | none =>
      have hplaced := mislabelledBelow?_eq_none_iff_descendant.mp hbelow
      rw [ofRecord_of_placed hlabel hbelow]
      constructor
      · intro h
        cases h
      · rintro (⟨c, ⟨⟩, -⟩ | ⟨-, path, key, d, hfirst, -⟩)
        exact absurd (hplaced _ _ _ hfirst.descendant) hfirst.misplaced
    | some m =>
      obtain ⟨path, key, d, hfirst, rfl⟩ := exists_firstMisplaced hr hbelow
      rw [ofRecord_of_mislabelledBelow? hlabel hbelow]
      constructor
      · rintro ⟨⟩
        exact Or.inr ⟨rfl, path, key, d, hfirst, rfl⟩
      · rintro (⟨c, ⟨⟩, -⟩ | ⟨-, path', key', d', hfirst', rfl⟩)
        obtain ⟨rfl, rfl⟩ := hfirst.unique hr hfirst'
        rfl

/-- **Which records make an index.** A record makes an index exactly when it has no character and
every record below it has the character of its key. If it has a character, that is reported.
Otherwise the record is reported that comes first among those with another character than their key,
in the order of `Earlier`. The loop that puts one node after the other into the array, with the children
that are pending on a stack, comes to the same end. -/
theorem ofRecord_verdict {r : Record} (hr : r.Ordered) :
    ((∃ t, ofRecord r = .ok t) ↔
      r.label = none ∧ ∀ path key d, r.Descendant path key d → d.label = some key) ∧
    (∀ e, ofRecord r = .error e ↔
      (∃ c, r.label = some c ∧ e = .mislabelled (.root c)) ∨
      (r.label = none ∧ ∃ path key d, r.FirstMisplaced path key d ∧
        e = .mislabelled (.child key d.label))) ∧
    r.rebuild = some r.toTrie :=
  ⟨exists_ofRecord_iff, fun _ => ofRecord_eq_error_iff hr, rebuild_eq hr⟩

/-- Four records with another character than their key. The ones below `b` are met before those
below `a`, and among the children of `b` the one under `x` before the one under `y`. -/
theorem ofRecord_verdict_deep :
    let r : Record := .node none []
      [('a', .node (some 'a') [] [('k', .node (some 'l') [1] [])]),
        ('b', .node (some 'b') []
          [('w', .node (some 'w') [] [('v', .node none [] [])]),
            ('x', .node none [2] []), ('y', .node (some 'x') [] [])])]
    r.Ordered ∧ ofRecord r = .error (.mislabelled (.child 'x' none)) ∧
      ∃ path d, r.FirstMisplaced path 'x' d ∧ d.label = none := by
  intro r
  have hleaf : ∀ label ids, (Record.node label ids []).Ordered :=
    fun label ids => .node .nil (List.forall_mem_nil _)
  have hr : r.Ordered := by
    refine .node (by unfold Children.Ascending; decide) ?_
    simp only [List.forall_mem_cons]
    refine ⟨.node (by unfold Children.Ascending; decide) ?_,
      .node (by unfold Children.Ascending; decide) ?_, List.forall_mem_nil _⟩
    · simp only [List.forall_mem_cons]
      exact ⟨hleaf _ _, List.forall_mem_nil _⟩
    · simp only [List.forall_mem_cons]
      refine ⟨.node (by unfold Children.Ascending; decide) ?_, hleaf _ _, hleaf _ _,
        List.forall_mem_nil _⟩
      simp only [List.forall_mem_cons]
      exact ⟨hleaf _ _, List.forall_mem_nil _⟩
  have herror : ofRecord r = .error (.mislabelled (.child 'x' none)) := rfl
  obtain ⟨-, hverdict, -⟩ := ofRecord_verdict hr
  obtain ⟨c, hlabel, -⟩ | ⟨-, path, key, d, hfirst, heq⟩ := (hverdict _).mp herror
  · cases hlabel
  · obtain ⟨rfl, hd⟩ := Mislabelling.child.inj (SearchError.mislabelled.inj heq)
    exact ⟨hr, herror, path, d, hfirst, hd.symm⟩

end Concordance.Snapshot
