import Concordance.Arena.Listing
import Concordance.Proofs.Arena.Plot
import Concordance.Proofs.Trie.Counts

/-!
# Look-ups and lists in the array

What is found, listed and counted in the array is what is found, listed and counted in the trie that
it represents. Each loop is followed through a plot, for any stack below it: it comes to the end of
the plot with the state that the recursion over the trie would add to (`Holds.drain_walk`,
`Holds.drain_entries`, `Holds.drain_documents`). The buffer in which the words are spelled starts with
the word of the parent whenever a node comes up; what stands after it there is left over from a
sibling, and cut off.
-/

namespace Concordance.Arena

open Plot

variable {a : Arena} {label : Option Char} {parent : Option Slot} {p : Plot} {t : Trie}

/-! ## Look-ups -/

/-- A path leads to a node in the array when it leads to one in the trie. The node has the last
character of the path. -/
theorem Holds.findFrom? (h : a.Holds label parent p) (cs : List Char) :
    (a.findFrom? p.slot cs = some none ∧ p.trie.find? cs = none) ∨
      ∃ parent' p', a.Holds (cs.getLast?.or label) parent' p' ∧
        a.findFrom? p.slot cs = some (some p'.slot) ∧ p.trie.find? cs = some p'.trie := by
  induction cs generalizing label parent p with
  | nil => exact Or.inr ⟨parent, p, h, rfl, Trie.find?_nil p.trie⟩
  | cons c cs ih =>
    obtain ⟨here, within⟩ := h
    rename_i slot ids kids
    have hslot : (links kids).lookup c = (kids.lookup c).map Plot.slot :=
      Children.lookup_map Plot.slot kids c
    have htrie : (triesBelow kids).lookup c = (kids.lookup c).map Plot.trie := by
      rw [triesBelow_eq]
      exact Children.lookup_map Plot.trie kids c
    have hlast : (c :: cs).getLast?.or label = cs.getLast?.or (some c) := by
      rw [List.getLast?_cons]
      cases cs.getLast? <;> rfl
    rw [trie, Trie.find?_cons, htrie, hlast]
    simp only [Arena.findFrom?, Plot.slot, here, hslot, Option.bind_eq_bind, Option.bind_some]
    cases hlook : kids.lookup c with
    | none => exact Or.inl ⟨rfl, rfl⟩
    | some child => exact ih (within (c, child) (Children.mem_of_lookup hlook))

/-- What a path leads to, from the root. -/
theorem Represents.find? (h : a.Represents t) (cs : List Char) :
    (a.find? cs = some none ∧ t.find? cs = none) ∨
      ∃ parent p, a.Holds cs.getLast? parent p ∧ a.find? cs = some (some p.slot) ∧
        t.find? cs = some p.trie := by
  obtain ⟨p, ⟨hfits, hroot⟩, rfl⟩ := h
  rw [Arena.find?, ← hroot]
  have hfind := hfits.holds.findFrom? cs
  rwa [Option.or_none] at hfind

theorem Represents.lookup?_eq (h : a.Represents t) (word : String) :
    a.lookup? word = some (t.lookup? word) := by
  rw [Arena.lookup?, Trie.lookup?]
  obtain ⟨harena, htrie⟩ | ⟨_, p, hp, harena, htrie⟩ := h.find? word.toList
  · rw [harena, htrie]
    rfl
  · obtain ⟨node, hnode, -, -, hids⟩ := hp.node?_slot
    rw [harena, htrie]
    simp [hnode, hids]

theorem Represents.contains?_eq (h : a.Represents t) (word : String) :
    a.contains? word = some (t.contains word) := by
  rw [Arena.contains?, Trie.contains]
  obtain ⟨harena, htrie⟩ | ⟨_, p, hp, harena, htrie⟩ := h.find? word.toList
  · rw [harena, htrie]
    rfl
  · rw [harena, htrie]
    rfl

/-! ## The walk -/

theorem Holds.drain_walk (h : a.Holds label parent p) (depth : Nat) (visits : List Trie.Visit)
    (stack : List (Slot × Nat)) :
    drain a.walkVisit visits ((p.slot, depth) :: stack) =
      drain a.walkVisit (visits ++ Trie.outlineFrom depth label p.trie) stack := by
  induction h generalizing depth visits stack with
  | @node label parent slot ids kids here within ih =>
    have hvisit : a.walkVisit visits (slot, depth) = some (visits ++ [⟨depth, label, ids⟩],
        (kids.map fun e => (e.2.slot, depth + 1)).reverse) := by
      simp [walkVisit, here, links]
    rw [Plot.slot, drain_cons hvisit, List.reverse_reverse, trie, Trie.outlineFrom,
      List.append_cons visits _ (Trie.outlineBelow _ _)]
    generalize visits ++ [⟨depth, label, ids⟩] = visits
    clear here within hvisit
    induction kids generalizing visits with
    | nil => simp [triesBelow, Trie.outlineBelow]
    | cons head rest ihrest =>
      rw [List.map_cons, List.cons_append, ih head List.mem_cons_self,
        ihrest fun e he => ih e (List.mem_cons_of_mem _ he), triesBelow, Trie.outlineBelow,
        List.append_assoc]

/-- The walk over the array is that of the trie. -/
theorem Represents.walk?_eq (h : a.Represents t) : a.walk? = some t.outline := by
  obtain ⟨p, ⟨hfits, hroot⟩, rfl⟩ := h
  rw [walk?, ← hroot, hfits.holds.drain_walk, drain_nil, List.nil_append, Trie.outline]

/-! ## Words -/

/-- Cutting a text back to the length of its start gives the start. -/
theorem truncate?_append (cs rest : List Char) :
    truncate? (byteLength cs) (cs ++ rest) = some cs := by
  induction cs with
  | nil => cases rest <;> rfl
  | cons c cs ih =>
    obtain ⟨n, hn⟩ := Nat.exists_eq_add_one_of_ne_zero (Nat.ne_of_gt c.utf8Size_pos)
    have hcut : n + 1 + byteLength cs = n + byteLength cs + 1 := by omega
    have hrest : n + byteLength cs + 1 - (n + 1) = byteLength cs := by omega
    rw [byteLength, hn, hcut, List.cons_append, truncate?, hn, if_pos (by omega), hrest, ih]
    rfl

/-- The entry of one node in front of those below it. -/
theorem entriesFrom_node (path : List Char) (ids : List DocId) (kids : List (Char × Trie)) :
    Trie.entriesFrom path (.node ids kids) =
      (if ids.isEmpty then [] else [(String.ofList path.reverse, ids)]) ++
        Trie.entriesBelow path kids := by
  cases ids <;> rfl

theorem Holds.drain_entries (h : a.Holds label parent p) (path left : List Char)
    (entries : List (String × List DocId)) (stack : List (Slot × Nat)) :
    ∃ left', drain a.entriesVisit (path ++ left, entries) ((p.slot, byteLength path) :: stack) =
      drain a.entriesVisit
        (path ++ left', entries ++ Trie.entriesFrom (path ++ label.toList).reverse p.trie) stack := by
  induction h generalizing path left entries stack with
  | @node label parent slot ids kids here within ih =>
    have hvisit : a.entriesVisit (path ++ left, entries) (slot, byteLength path) =
        some ((path ++ label.toList, entries ++
            if ids.isEmpty then [] else [(String.ofList (path ++ label.toList), ids)]),
          (kids.map fun e => (e.2.slot, byteLength (path ++ label.toList))).reverse) := by
      cases ids <;> simp [entriesVisit, here, truncate?_append, links]
    rw [Plot.slot, drain_cons hvisit, List.reverse_reverse, trie, entriesFrom_node,
      List.reverse_reverse, ← List.append_assoc]
    generalize (entries ++ if ids.isEmpty then [] else [(String.ofList (path ++ label.toList), ids)])
      = entries
    -- Whatever a child leaves behind in the buffer comes after the word of this node.
    have hkids : ∀ left entries, ∃ left', drain a.entriesVisit (path ++ label.toList ++ left, entries)
        ((kids.map fun e => (e.2.slot, byteLength (path ++ label.toList))) ++ stack) =
        drain a.entriesVisit (path ++ label.toList ++ left',
          entries ++ Trie.entriesBelow (path ++ label.toList).reverse (triesBelow kids)) stack := by
      clear here within hvisit
      induction kids with
      | nil => exact fun left entries => ⟨left, by simp [triesBelow, Trie.entriesBelow]⟩
      | cons head rest ihrest =>
        intro left entries
        obtain ⟨left₁, hhead⟩ := ih head List.mem_cons_self (path ++ label.toList) left entries
          ((rest.map fun e => (e.2.slot, byteLength (path ++ label.toList))) ++ stack)
        obtain ⟨left', hrest⟩ := ihrest (fun e he => ih e (List.mem_cons_of_mem _ he)) left₁ _
        refine ⟨left', hhead.trans (hrest.trans ?_)⟩
        simp [triesBelow, Trie.entriesBelow]
    obtain ⟨left', heq⟩ := hkids [] entries
    exact ⟨label.toList ++ left', by rw [← List.append_assoc, ← heq, List.append_nil]⟩

/-- The words that are spelled in the buffer are those of the trie. -/
theorem Represents.entries?_eq (h : a.Represents t) : a.entries? = some t.entries := by
  obtain ⟨p, ⟨hfits, hroot⟩, rfl⟩ := h
  obtain ⟨left, heq⟩ := hfits.holds.drain_entries [] [] [] []
  rw [hroot] at heq
  rw [entries?, Trie.entries]
  have hlength : byteLength [] = 0 := rfl
  simp only [List.nil_append, hlength, drain_nil, Option.toList_none, List.reverse_nil] at heq
  rw [heq]
  rfl

/-! ## Documents -/

theorem mem_insertMany {documents : Std.TreeSet DocId} {ids : List DocId} {d : DocId} :
    d ∈ documents.insertMany ids ↔ d ∈ documents ∨ d ∈ ids := by
  rw [Std.TreeSet.mem_insertMany_list, List.contains_iff_mem]

theorem Holds.drain_documents (h : a.Holds label parent p) (documents : Std.TreeSet DocId)
    (stack : List Slot) :
    ∃ documents', drain a.documentsVisit documents (p.slot :: stack) =
        drain a.documentsVisit documents' stack ∧
      ∀ d, d ∈ documents' ↔ d ∈ documents ∨ d ∈ p.trie.gathered := by
  induction h generalizing documents stack with
  | @node label parent slot ids kids here within ih =>
    have hvisit : a.documentsVisit documents slot =
        some (documents.insertMany ids, kids.map fun e => e.2.slot) := by
      simp [documentsVisit, here, links]
    -- The children come in any order, here from the last to the first.
    have hkids : ∀ kids' : List (Char × Plot), (∀ e ∈ kids', e ∈ kids) → ∀ documents,
        ∃ documents', drain a.documentsVisit documents ((kids'.map fun e => e.2.slot) ++ stack) =
            drain a.documentsVisit documents' stack ∧
          ∀ d, d ∈ documents' ↔ d ∈ documents ∨ ∃ e ∈ kids', d ∈ e.2.trie.gathered := by
      intro kids' hsub
      induction kids' with
      | nil => exact fun documents => ⟨documents, rfl, by simp⟩
      | cons head rest ihrest =>
        intro documents
        obtain ⟨documents₁, hhead, hmem₁⟩ := ih head (hsub head List.mem_cons_self) documents
          ((rest.map fun e => e.2.slot) ++ stack)
        obtain ⟨documents', hrest, hmem⟩ :=
          ihrest (fun e he => hsub e (List.mem_cons_of_mem _ he)) documents₁
        refine ⟨documents', hhead.trans hrest, fun d => ?_⟩
        rw [hmem, hmem₁, or_assoc, List.exists_mem_cons_iff]
    obtain ⟨documents', heq, hmem⟩ :=
      hkids kids.reverse (fun e he => List.mem_reverse.mp he) (documents.insertMany ids)
    refine ⟨documents', ?_, fun d => ?_⟩
    · rw [Plot.slot, drain_cons hvisit, ← heq, List.map_reverse]
    · rw [hmem, mem_insertMany, or_assoc, trie, Trie.gathered, List.mem_append,
        Trie.gatheredBelow_eq, triesBelow_eq, List.mem_flatMap]
      simp

/-- The documents that are gathered are those of the trie, in the same order. -/
theorem Represents.documents?_eq (h : a.Represents t) :
    a.documents?.map (·.toList) = some t.documents := by
  obtain ⟨p, ⟨hfits, hroot⟩, rfl⟩ := h
  obtain ⟨documents, heq, hmem⟩ := hfits.holds.drain_documents ∅ []
  rw [documents?, ← hroot, heq, drain_nil, Option.map_some]
  have hlt : documents.toList.Pairwise (· < ·) :=
    Std.TreeSet.ordered_toList.imp Std.compare_eq_lt.mp
  have : Std.Antisymm fun d e : DocId => d < e :=
    ⟨fun _ _ hlt hgt => (UInt32.lt_asymm hlt hgt).elim⟩
  have : Std.Irrefl fun d e : DocId => d < e := ⟨fun _ => UInt32.lt_irrefl _⟩
  refine congrArg some (List.Pairwise.eq_of_mem_iff hlt (Trie.pairwise_documents _) fun d => ?_)
  rw [Std.TreeSet.mem_toList, hmem, Trie.mem_documents_iff_gathered]
  simp [Std.TreeSet.not_mem_emptyc]

/-! ## Counts -/

mutual

theorem length_slots : (p : Plot) → p.slots.length = p.trie.nodeCount
  | .node slot ids kids => by
    rw [slots, trie, Trie.nodeCount, List.length_cons, length_slotsBelow kids, Nat.add_comm]

theorem length_slotsBelow : (kids : List (Char × Plot)) →
    (slotsBelow kids).length = Trie.nodeCountBelow (triesBelow kids)
  | [] => rfl
  | (c, p) :: rest => by
    rw [slotsBelow, triesBelow, Trie.nodeCountBelow, List.length_append, length_slots p,
      length_slotsBelow rest]

end

/-- The slots that are not free are those of the nodes. -/
theorem Represents.nodeCount_eq (h : a.Represents t) : a.nodeCount = t.nodeCount := by
  obtain ⟨p, ⟨hfits, _⟩, rfl⟩ := h
  have hlength := hfits.tiles.length_eq
  rw [List.length_range, List.length_append, List.length_append, length_slots, List.length_nil]
    at hlength
  rw [nodeCount]
  omega

theorem Represents.isVacant?_eq (h : a.Represents t) : a.isVacant? = some t.isVacant := by
  obtain ⟨⟨slot, ids, kids⟩, ⟨⟨⟨here, _⟩, _⟩, rfl⟩, rfl⟩ := h
  rw [isVacant?]
  cases ids <;> cases kids <;> simp [here, Node.isVacant, trie, triesBelow, Trie.isVacant, links]

theorem Represents.statistics_eq (h : a.Represents t) :
    Statistics.ofArena? a = some (Statistics.ofTrie t) := by
  obtain ⟨documents, hdocuments, htoList⟩ := Option.map_eq_some_iff.mp h.documents?_eq
  rw [Statistics.ofArena?, h.entries?_eq, hdocuments, Option.bind_eq_bind, Option.bind_some,
    Option.bind_eq_bind, Option.bind_some, h.nodeCount_eq, ← Std.TreeSet.length_toList, htoList]
  rfl

end Concordance.Arena
