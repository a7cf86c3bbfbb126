import Concordance.Proofs.Trie.Contents
import Concordance.Trie.Listing
import Mathlib.Data.List.Basic

/-!
# The paths of a trie

`paths t` lists the paths of `t` in the order of a walk through it: each node before its
children, and the children in their order. In a well-formed trie a path is listed exactly when
it leads to a node (`mem_paths`), and the list is in strictly ascending order
(`pairwise_paths`), so that no path is listed twice. The views of `Trie.Listing` are images of this
list:

* `outline_eq`: the walk meets at every path its length, its last character and its documents;
* `nodeCount_eq`: there are as many nodes as paths;
* `entries_eq`, `mem_entries`: the words are the paths that hold documents;
* `mem_documents`: the documents are those that some path holds.
-/

namespace Concordance

namespace Trie

mutual

/-- The paths of a trie, in the order of a walk. -/
def paths : Trie → List (List Char)
  | node _ kids => [] :: pathsBelow kids

def pathsBelow : List (Char × Trie) → List (List Char)
  | [] => []
  | (c, t) :: rest => (paths t).map (c :: ·) ++ pathsBelow rest

end

theorem pathsBelow_eq (kids : List (Char × Trie)) :
    pathsBelow kids = kids.flatMap fun e => (paths e.2).map (e.1 :: ·) := by
  induction kids with
  | nil => rfl
  | cons head rest ih => rw [pathsBelow, ih, List.flatMap_cons]

theorem mem_pathsBelow {kids : List (Char × Trie)} {cs : List Char} :
    cs ∈ pathsBelow kids ↔ ∃ e ∈ kids, ∃ cs' ∈ paths e.2, e.1 :: cs' = cs := by
  rw [pathsBelow_eq]
  simp only [List.mem_flatMap, List.mem_map]

/-- A path is listed exactly when it leads to a node. -/
theorem mem_paths {t : Trie} (h : WellFormed t) {cs : List Char} :
    cs ∈ paths t ↔ (t.find? cs).isSome = true := by
  induction cs generalizing t with
  | nil =>
    cases t
    simp [paths, find?_nil]
  | cons c cs ih =>
    obtain ⟨_, ha, hw⟩ := h
    rw [paths, find?_cons, List.mem_cons, mem_pathsBelow]
    constructor
    · rintro (hnil | ⟨e, he, cs', hcs', heq⟩)
      · cases hnil
      · obtain ⟨rfl, rfl⟩ := List.cons.inj heq
        have hlook : List.lookup e.1 _ = some e.2 := (Children.lookup_eq_some_iff ha).mpr he
        rw [hlook]
        exact (ih (hw e he)).mp hcs'
    · intro hfound
      cases hlook : List.lookup c _ with
      | none =>
        rw [hlook] at hfound
        cases hfound
      | some t =>
        rw [hlook] at hfound
        have hmem := Children.mem_of_lookup hlook
        exact Or.inr ⟨(c, t), hmem, cs, (ih (hw _ hmem)).mpr hfound, rfl⟩

/-- The paths are listed in the order of their characters. -/
theorem pairwise_paths {t : Trie} (h : WellFormed t) :
    (paths t).Pairwise (List.Lex fun c c' => c < c') := by
  induction t using Trie.induction with
  | node ids kids ih =>
    obtain ⟨_, ha, hw⟩ := h
    -- Paths through one child differ further on, and paths through two children differ at once.
    have hbelow : (pathsBelow kids).Pairwise (List.Lex fun c c' => c < c') := by
      rw [pathsBelow_eq, List.pairwise_flatMap]
      refine ⟨fun e he => ?_, ha.imp fun {e e'} hlt cs hcs cs' hcs' => ?_⟩
      · rw [List.pairwise_map]
        exact (ih e he (hw e he)).imp List.Lex.cons
      · obtain ⟨_, _, rfl⟩ := List.mem_map.mp hcs
        obtain ⟨_, _, rfl⟩ := List.mem_map.mp hcs'
        exact List.Lex.rel hlt
    rw [paths]
    refine List.pairwise_cons.mpr ⟨fun cs hcs => ?_, hbelow⟩
    obtain ⟨e, _, cs', _, rfl⟩ := mem_pathsBelow.mp hcs
    exact List.Lex.nil

theorem nodup_paths {t : Trie} (h : WellFormed t) : (paths t).Nodup := by
  refine (pairwise_paths h).imp fun {cs cs'} hlt heq => ?_
  subst heq
  exact List.lex_irrefl Char.lt_irrefl cs hlt

/-! ## The views as images of the paths -/

mutual

theorem nodeCount_eq : (t : Trie) → t.nodeCount = t.paths.length
  | node ids kids => by
    rw [nodeCount, paths, List.length_cons, nodeCountBelow_eq kids]
    omega

theorem nodeCountBelow_eq : (kids : List (Char × Trie)) →
    nodeCountBelow kids = (pathsBelow kids).length
  | [] => rfl
  | (c, t) :: rest => by
    rw [nodeCountBelow, pathsBelow, List.length_append, List.length_map, nodeCount_eq t,
      nodeCountBelow_eq rest]

end

/-- What a path of a child holds is what the path through the child holds. -/
theorem idsAt_of_mem {ids : List DocId} {kids : List (Char × Trie)}
    (ha : Children.Ascending kids) {e : Char × Trie} (he : e ∈ kids) (cs : List Char) :
    (node ids kids).idsAt (e.1 :: cs) = e.2.idsAt cs := by
  have hlook : kids.lookup e.1 = some e.2 := (Children.lookup_eq_some_iff ha).mpr he
  rw [idsAt_cons, hlook]
  rfl

/-- What stands at a path, for a walk that meets the root at a depth and under a character. -/
def visitAt (depth : Nat) (label : Option Char) (t : Trie) (cs : List Char) : Visit :=
  ⟨depth + cs.length, cs.getLast?.or label, t.idsAt cs⟩

theorem outlineBelow_eq (depth : Nat) (kids : List (Char × Trie)) :
    outlineBelow depth kids = kids.flatMap fun e => outlineFrom depth (some e.1) e.2 := by
  induction kids with
  | nil => rfl
  | cons head rest ih => rw [outlineBelow, ih, List.flatMap_cons]

theorem outlineFrom_eq {t : Trie} (h : WellFormed t) (depth : Nat) (label : Option Char) :
    outlineFrom depth label t = t.paths.map (visitAt depth label t) := by
  induction t using Trie.induction generalizing depth label with
  | node ids kids ih =>
    obtain ⟨_, ha, hw⟩ := h
    have hroot : visitAt depth label (node ids kids) [] = ⟨depth, label, ids⟩ := by
      simp [visitAt, idsAt_nil, Trie.ids]
    have hchild : ∀ e ∈ kids, outlineFrom (depth + 1) (some e.1) e.2 =
        ((paths e.2).map (e.1 :: ·)).map (visitAt depth label (node ids kids)) := by
      intro e he
      rw [ih e he (hw e he), List.map_map]
      refine List.map_congr_left fun cs _ => ?_
      -- The first character of a path counts as a step, and is its last one if no other follows.
      have hdepth : depth + 1 + cs.length = depth + (cs.length + 1) := by omega
      cases hlast : cs.getLast? <;>
        simp [visitAt, idsAt_of_mem ha he, List.getLast?_cons, hlast, hdepth]
    rw [outlineFrom, paths, List.map_cons, hroot, outlineBelow_eq, pathsBelow_eq, List.map_flatMap]
    exact congrArg _ (List.flatMap_congr hchild)

/-- **The walk.** At every path it meets the length of the path, its last character and its
documents. -/
theorem outline_eq {t : Trie} (h : WellFormed t) :
    t.outline = t.paths.map fun cs => ⟨cs.length, cs.getLast?, t.idsAt cs⟩ := by
  rw [outline, outlineFrom_eq h]
  refine List.map_congr_left fun cs _ => ?_
  simp [visitAt]

/-- The entry of a path, if it holds documents. -/
def entry? (cs : List Char) : List DocId → Option (String × List DocId)
  | [] => none
  | d :: ds => some (String.ofList cs, d :: ds)

theorem entriesBelow_eq (path : List Char) (kids : List (Char × Trie)) :
    entriesBelow path kids = kids.flatMap fun e => entriesFrom (e.1 :: path) e.2 := by
  induction kids with
  | nil => rfl
  | cons head rest ih => rw [entriesBelow, ih, List.flatMap_cons]

theorem entriesFrom_eq {t : Trie} (h : WellFormed t) (path : List Char) :
    entriesFrom path t = t.paths.filterMap fun cs => entry? (path.reverse ++ cs) (t.idsAt cs) := by
  induction t using Trie.induction generalizing path with
  | node ids kids ih =>
    obtain ⟨_, ha, hw⟩ := h
    have hchild : ∀ e ∈ kids, entriesFrom (e.1 :: path) e.2 =
        ((paths e.2).map (e.1 :: ·)).filterMap
          fun cs => entry? (path.reverse ++ cs) ((node ids kids).idsAt cs) := by
      intro e he
      rw [ih e he (hw e he), List.filterMap_map]
      refine List.filterMap_congr fun cs _ => ?_
      simp [idsAt_of_mem ha he]
    have hbelow : entriesBelow path kids = (pathsBelow kids).filterMap
        fun cs => entry? (path.reverse ++ cs) ((node ids kids).idsAt cs) := by
      rw [entriesBelow_eq, pathsBelow_eq, List.filterMap_flatMap]
      exact List.flatMap_congr hchild
    rw [paths, List.filterMap_cons, idsAt_nil, Trie.ids]
    cases ids with
    | nil => rw [entriesFrom, hbelow]; rfl
    | cons d ds => rw [entriesFrom, hbelow, List.append_nil]; rfl

theorem entries_eq {t : Trie} (h : WellFormed t) :
    t.entries = t.paths.filterMap fun cs => entry? cs (t.idsAt cs) :=
  entriesFrom_eq h []

/-- The entries are the words that hold documents, with their documents. -/
theorem mem_entries {t : Trie} (h : WellFormed t) {e : String × List DocId} :
    e ∈ t.entries ↔ t.idsAt e.1.toList = e.2 ∧ e.2 ≠ [] := by
  obtain ⟨word, ids⟩ := e
  rw [entries_eq h, List.mem_filterMap]
  constructor
  · rintro ⟨cs, _, hcs⟩
    cases hids : t.idsAt cs with
    | nil =>
      rw [hids] at hcs
      cases hcs
    | cons d ds =>
      rw [hids] at hcs
      cases hcs
      simp [hids]
  · rintro ⟨hids, hne⟩
    have hpath : word.toList ∈ t.paths :=
      (mem_paths h).mpr (isSome_find?_of_idsAt_ne_nil (hids.symm ▸ hne))
    refine ⟨word.toList, hpath, ?_⟩
    cases ids with
    | nil => exact absurd rfl hne
    | cons d ds => simp [hids, entry?]

theorem mem_eraseRepsLoop {d a : DocId} {as acc : List DocId} :
    d ∈ List.eraseRepsBy.loop (· == ·) a as acc ↔ d = a ∨ d ∈ as ∨ d ∈ acc := by
  induction as generalizing a acc with
  | nil => simp [List.eraseRepsBy.loop, or_comm]
  | cons b as ih =>
    rw [List.eraseRepsBy.loop]
    cases hab : a == b with
    | true =>
      have heq : a = b := by simpa using hab
      simp only [ih, heq, List.mem_cons]
      grind
    | false =>
      simp only [ih, List.mem_cons]
      grind

theorem mem_eraseReps {d : DocId} {ds : List DocId} : d ∈ ds.eraseReps ↔ d ∈ ds := by
  cases ds with
  | nil => rfl
  | cons a as =>
    rw [List.eraseReps, List.eraseRepsBy, mem_eraseRepsLoop]
    simp

theorem gatheredBelow_eq (kids : List (Char × Trie)) :
    gatheredBelow kids = kids.flatMap fun e => gathered e.2 := by
  induction kids with
  | nil => rfl
  | cons head rest ih => rw [gatheredBelow, ih, List.flatMap_cons]

/-- What is gathered from the nodes is what the words hold: a node without documents is no word, and
adds none. -/
theorem mem_gathered {t : Trie} (path : List Char) {d : DocId} :
    d ∈ t.gathered ↔ ∃ e ∈ entriesFrom path t, d ∈ e.2 := by
  induction t using Trie.induction generalizing path with
  | node ids kids ih =>
    have hbelow : d ∈ gatheredBelow kids ↔ ∃ e ∈ entriesBelow path kids, d ∈ e.2 := by
      rw [gatheredBelow_eq, entriesBelow_eq, List.mem_flatMap]
      simp only [List.mem_flatMap]
      constructor
      · rintro ⟨kid, hkid, hd⟩
        obtain ⟨e, he, hd⟩ := (ih kid hkid (kid.1 :: path)).mp hd
        exact ⟨e, ⟨kid, hkid, he⟩, hd⟩
      · rintro ⟨e, ⟨kid, hkid, he⟩, hd⟩
        exact ⟨kid, hkid, (ih kid hkid (kid.1 :: path)).mpr ⟨e, he, hd⟩⟩
    rw [gathered, List.mem_append, hbelow]
    cases ids with
    | nil => simp [entriesFrom]
    | cons d' ds => simp [entriesFrom]

theorem mem_documents_iff_gathered {t : Trie} {d : DocId} : d ∈ t.documents ↔ d ∈ t.gathered := by
  rw [documents, mem_eraseReps, List.mem_mergeSort]

/-- The documents of the nodes are those of the entries. -/
theorem mem_documents_iff {t : Trie} {d : DocId} : d ∈ t.documents ↔ ∃ e ∈ t.entries, d ∈ e.2 := by
  rw [mem_documents_iff_gathered, mem_gathered [], entries]

/-- The documents of a trie are those that some path holds. -/
theorem mem_documents {t : Trie} (h : WellFormed t) {d : DocId} :
    d ∈ t.documents ↔ ∃ cs, d ∈ t.idsAt cs := by
  rw [mem_documents_iff]
  constructor
  · rintro ⟨e, he, hd⟩
    exact ⟨e.1.toList, ((mem_entries h).mp he).1 ▸ hd⟩
  · rintro ⟨cs, hd⟩
    have hne : t.idsAt cs ≠ [] := List.ne_nil_of_mem hd
    refine ⟨(String.ofList cs, t.idsAt cs), (mem_entries h).mpr ⟨?_, hne⟩, hd⟩
    rw [String.toList_ofList]

end Trie

end Concordance
