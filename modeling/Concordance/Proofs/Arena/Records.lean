import Concordance.Arena.Snapshot
import Concordance.Proofs.Arena.Plot
import Concordance.Proofs.Snapshot.Record
import Mathlib.Data.List.Induction

/-!
# Records from the array

`toRecord?` lists all nodes with the places of their parents, and puts the list together from its
end. The record that comes out is the one that the recursion over the trie gives
(`Represents.toRecord?_eq`).

`Holds.gathers` follows both loops through one plot. It says what the first loop adds to the lists for
the plot, and that the second one, when it comes to this part of the lists, puts the plot's record into
that of its parent and is left with what came before. What comes before may have changed until then,
since only its length matters.
-/

namespace Concordance.Arena

open Plot Snapshot Snapshot.Record

variable {a : Arena} {label : Option Char} {above : Option Slot} {p : Plot} {t : Trie}

/-! ## Putting the list together -/

/-- A child is put into a record of the list or, if it points to none, into the top one. -/
def adopt (parent : Option Nat) (f : Record → Record) (s : Array Record × Record) :
    Array Record × Record :=
  match parent with
  | none => (s.1, f s.2)
  | some i => (s.1.modify i f, s.2)

theorem adopt_id (parent : Option Nat) (s : Array Record × Record) : adopt parent id s = s := by
  cases parent with
  | none => rfl
  | some i =>
    have hsame : s.1.modify i id = s.1 := by
      refine Array.ext_getElem? fun j => ?_
      rw [Array.getElem?_modify]
      split <;> simp
    rw [adopt, hsame]

theorem adopt_adopt (parent : Option Nat) (f g : Record → Record) (s : Array Record × Record) :
    adopt parent g (adopt parent f s) = adopt parent (fun r => g (f r)) s := by
  cases parent with
  | none => rfl
  | some i =>
    have hboth : (s.1.modify i f).modify i g = s.1.modify i fun r => g (f r) := by
      refine Array.ext_getElem? fun j => ?_
      rw [Array.getElem?_modify, Array.getElem?_modify, Array.getElem?_modify]
      split <;> simp [Function.comp_def]
    rw [adopt, adopt, adopt, hboth]

theorem size_adopt (parent : Option Nat) (f : Record → Record) (s : Array Record × Record) :
    (adopt parent f s).1.size = s.1.size := by
  cases parent with
  | none => rfl
  | some i => exact Array.size_modify

/-- A record that comes before some others in the list can be changed without looking at them. -/
theorem adopt_append {parent : Option Nat} {records : Array Record}
    (h : ∀ i, parent = some i → i < records.size) (f : Record → Record) (rest : Array Record)
    (top : Record) :
    adopt parent f (records ++ rest, top) =
      ((adopt parent f (records, top)).1 ++ rest, (adopt parent f (records, top)).2) := by
  cases parent with
  | none => rfl
  | some i =>
    have hi := h i rfl
    have hleft : (records ++ rest).modify i f = records.modify i f ++ rest := by
      refine Array.ext_getElem? fun j => ?_
      simp only [Array.getElem?_modify, Array.getElem?_append, Array.size_modify]
      grind
    rw [adopt, adopt, hleft]

theorem assemble?_empty (parents : Array (Option Nat)) (top : Record) :
    assemble? #[] parents top = some top := by
  rw [assemble?]
  rfl

/-- The last record of the list goes into its parent. -/
theorem assemble?_push {records : Array Record} {record : Record} {parents : Array (Option Nat)}
    {top : Record} {c : Char} {parent : Option Nat} (hlabel : record.label = some c)
    (hparent : parents[records.size]? = some parent) (hlt : ∀ i, parent = some i → i < records.size) :
    assemble? (records.push record) parents top =
      let s := adopt parent (fun r => r.putChild c record) (records, top)
      assemble? s.1 parents s.2 := by
  have hback : (records.push record).back? = some record := Array.back?_push
  rw [assemble?]
  split
  · next hnone => rw [hback] at hnone; cases hnone
  · next record' hsome =>
    rw [hback] at hsome
    cases hsome
    simp only [hlabel, Array.size_push, Nat.add_sub_cancel, hparent, Array.pop_push]
    cases parent with
    | none => rfl
    | some i => simp only [if_pos (hlt i rfl), adopt]

/-! ## Both loops through a plot -/

/-- The record with the records of some plots as its children, put there in their order. -/
def putAll (kids : List (Char × Plot)) (r : Record) : Record :=
  kids.foldl (fun r e => r.putChild e.1 (ofTrie (some e.1) e.2.trie)) r

theorem putAll_concat (kids : List (Char × Plot)) (e : Char × Plot) (r : Record) :
    putAll (kids ++ [e]) r = (putAll kids r).putChild e.1 (ofTrie (some e.1) e.2.trie) := by
  rw [putAll, List.foldl_append]
  rfl

/-- Children that come in rising order are put one after the other. -/
theorem putAll_node (label : Option Char) (ids : List DocId) {kids : List (Char × Plot)}
    (hasc : Children.Ascending kids) :
    putAll kids (.node label ids []) = .node label ids (ofChildren (triesBelow kids)) := by
  induction kids using List.reverseRecOn with
  | nil => rfl
  | append_singleton kids e ih =>
    obtain ⟨hkids, -, hless⟩ := List.pairwise_append.mp hasc
    have hlast : ∀ e' ∈ ofChildren (triesBelow kids), e'.1 < e.1 := by
      intro e' he'
      rw [ofChildren_eq, triesBelow_eq, List.map_map] at he'
      obtain ⟨e'', he'', rfl⟩ := List.mem_map.mp he'
      exact hless e'' he'' e List.mem_cons_self
    rw [putAll_concat, ih hkids, Record.putChild, Children.put, Children.upsert_last hlast,
      triesBelow_append]
    simp [ofChildren_eq, triesBelow_eq]

/-- What the two loops do for some plots that have their parent at one place: the first adds `rs` and
`ps` to the lists, and the second, where it finds them at the end of a list, puts the records of the
plots into that of the parent. -/
def Gathers (a : Arena) (items : List (Slot × Option Nat)) (parent : Option Nat)
    (put : Record → Record) : Prop :=
  ∀ (g : Gathered) (stack : List (Slot × Option Nat)), g.records.size = g.parents.size →
    (∀ i, parent = some i → i < g.records.size) →
    ∃ rs ps, drain a.gatherVisit g (items ++ stack) =
        drain a.gatherVisit ⟨g.records ++ rs, g.parents ++ ps⟩ stack ∧ rs.size = ps.size ∧
      ∀ records rest top, records.size = g.records.size →
        assemble? (records ++ rs) (g.parents ++ ps ++ rest) top =
          assemble? (adopt parent put (records, top)).1 (g.parents ++ ps ++ rest)
            (adopt parent put (records, top)).2

theorem gathers_nil (a : Arena) (parent : Option Nat) : a.Gathers [] parent id := by
  intro g stack _ _
  refine ⟨#[], #[], ?_, rfl, fun records rest top _ => ?_⟩
  · rw [Array.append_empty, Array.append_empty]
    rfl
  · rw [adopt_id, Array.append_empty, Array.append_empty]

/-- What comes first is put into the parent last. -/
theorem Gathers.append {items items' : List (Slot × Option Nat)} {parent : Option Nat}
    {put put' : Record → Record} (h : a.Gathers items parent put)
    (h' : a.Gathers items' parent put') :
    a.Gathers (items ++ items') parent fun r => put (put' r) := by
  intro g stack hsize hparent
  obtain ⟨rs, ps, hdrain, hsize', hassemble⟩ := h g (items' ++ stack) hsize hparent
  have hparent' : ∀ i, parent = some i → i < (g.records ++ rs).size := by
    intro i hi
    rw [Array.size_append]
    exact Nat.lt_add_right _ (hparent i hi)
  obtain ⟨rs', ps', hdrain', hsize'', hassemble'⟩ :=
    h' ⟨g.records ++ rs, g.parents ++ ps⟩ stack (by simp [hsize, hsize']) hparent'
  refine ⟨rs ++ rs', ps ++ ps', ?_, by simp [hsize', hsize''], fun records rest top hrecords => ?_⟩
  · rw [List.append_assoc, hdrain, hdrain', Array.append_assoc, Array.append_assoc]
  · have hlt : ∀ i, parent = some i → i < records.size := fun i hi => hrecords ▸ hparent i hi
    have hsize₁ : (adopt parent put' (records, top)).1.size = g.records.size :=
      (size_adopt parent put' _).trans hrecords
    have hlast := hassemble' (records ++ rs) rest top (by simp [hrecords])
    have hfirst := hassemble (adopt parent put' (records, top)).1 (ps' ++ rest)
      (adopt parent put' (records, top)).2 hsize₁
    simp only [Array.append_assoc] at hlast hfirst ⊢
    rw [hlast, adopt_append hlt, hfirst, adopt_adopt]

/-- Children are pushed in their order, so the last one is listed first and put in last. -/
theorem gathers_links {kids : List (Char × Plot)} {parent : Option Nat}
    (h : ∀ e ∈ kids, a.Gathers [(e.2.slot, parent)] parent fun r =>
      r.putChild e.1 (ofTrie (some e.1) e.2.trie)) :
    a.Gathers (kids.map fun e => (e.2.slot, parent)).reverse parent (putAll kids) := by
  induction kids using List.reverseRecOn with
  | nil => exact gathers_nil a parent
  | append_singleton kids e ih =>
    have hkids := ih fun e' he' => h e' (List.mem_append_left _ he')
    have he := h e (by simp)
    have hput : putAll (kids ++ [e]) = fun r =>
        (putAll kids r).putChild e.1 (ofTrie (some e.1) e.2.trie) :=
      funext (putAll_concat kids e)
    rw [List.map_append, List.reverse_append, hput]
    exact he.append hkids

/-- The record of a plot goes into that of its parent. -/
theorem Holds.gathers {c : Char} (h : a.Holds (some c) above p) (hw : p.trie.WellFormed)
    (parent : Option Nat) :
    a.Gathers [(p.slot, parent)] parent fun r => r.putChild c (ofTrie (some c) p.trie) := by
  induction p using Plot.induction generalizing c above parent with
  | node slot ids kids ih =>
    obtain ⟨here, within⟩ := h
    rw [trie] at hw
    obtain ⟨_, hasc, hwithin⟩ := hw
    intro g stack hsize hparent
    have hvisit : a.gatherVisit g (slot, parent) =
        some (⟨g.records.push (.node (some c) ids []), g.parents.push parent⟩,
          kids.map fun e => (e.2.slot, some g.records.size)) := by
      simp [gatherVisit, here, Node.detached, links]
    have hkids : ∀ e ∈ kids, a.Gathers [(e.2.slot, some g.records.size)] (some g.records.size)
        fun r => r.putChild e.1 (ofTrie (some e.1) e.2.trie) := fun e he =>
      ih e he (within e he) (hwithin (e.1, e.2.trie) (by
        rw [triesBelow_eq]
        exact List.mem_map_of_mem he)) _
    obtain ⟨rs, ps, hdrain, hsize', hassemble⟩ := gathers_links hkids
      ⟨g.records.push (.node (some c) ids []), g.parents.push parent⟩ stack
      (by simp [hsize]) (by simp)
    refine ⟨#[.node (some c) ids []] ++ rs, #[parent] ++ ps, ?_, by simp [hsize'],
      fun records rest top hrecords => ?_⟩
    · rw [List.singleton_append, Plot.slot, drain_cons hvisit, hdrain]
      rw [← Array.append_assoc, ← Array.append_assoc, Array.append_singleton, Array.append_singleton]
    · -- The node's own record stands at the end when those below it have been put into it.
      have hbelow := hassemble (records.push (.node (some c) ids [])) rest top (by simp [hrecords])
      have hmodify : (records.push (.node (some c) ids [])).modify g.records.size (putAll kids) =
          records.push (ofTrie (some c) (.node ids (triesBelow kids))) := by
        rw [ofTrie, ← putAll_node (some c) ids (ascending_triesBelow.mp hasc)]
        refine Array.ext_getElem? fun j => ?_
        rw [Array.getElem?_modify, Array.getElem?_push, Array.getElem?_push, hrecords]
        grind
      have hat : (g.parents.push parent ++ ps ++ rest)[records.size]? = some parent := by
        rw [hrecords, hsize]
        simp [Array.getElem?_append]
      rw [← Array.append_assoc, ← Array.append_assoc, Array.append_singleton, Array.append_singleton,
        hbelow, adopt, hmodify]
      exact assemble?_push rfl hat fun i hi => hrecords ▸ hparent i hi

/-- The record that is put together is that of the trie. -/
theorem Represents.toRecord?_eq (h : a.Represents t) (hw : t.WellFormed) :
    a.toRecord? = some (Snapshot.toRecord t) := by
  obtain ⟨⟨slot, ids, kids⟩, ⟨⟨⟨here, within⟩, _⟩, rfl⟩, rfl⟩ := h
  rw [trie] at hw
  obtain ⟨_, hasc, hwithin⟩ := hw
  have hkids : ∀ e ∈ kids, a.Gathers [(e.2.slot, none)] none
      fun r => r.putChild e.1 (ofTrie (some e.1) e.2.trie) := fun e he =>
    (within e he).gathers (hwithin (e.1, e.2.trie) (by
      rw [triesBelow_eq]
      exact List.mem_map_of_mem he)) none
  obtain ⟨rs, ps, hdrain, _, hassemble⟩ := gathers_links hkids ⟨#[], #[]⟩ [] rfl nofun
  have hall := hassemble #[] #[] (.node none ids []) rfl
  simp only [List.append_nil, Array.empty_append, Array.append_empty, drain_nil] at hdrain hall
  rw [adopt, assemble?_empty, putAll_node none ids (ascending_triesBelow.mp hasc)] at hall
  have hitems : (links kids).map (fun e => (e.2, (none : Option Nat))) =
      kids.map fun e => (e.2.slot, none) := by
    simp [links]
  rw [toRecord?, here, Option.bind_eq_bind, Option.bind_some, hitems, hdrain, Option.bind_eq_bind,
    Option.bind_some, Node.detached, hall, Snapshot.toRecord, trie, ofTrie]

end Concordance.Arena
