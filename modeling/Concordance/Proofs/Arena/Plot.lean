import Concordance.Arena
import Concordance.Proofs.Trie.WellFormed

/-!
# Tries in the array

A `Plot` is a trie together with the slots of its nodes. `Holds` says that the array has the nodes
of a plot in these slots: with their documents, the slots of their children under the characters
that lead there, and at every node the character that leads to it and the slot of its parent.

An operation works on a part of the tree at a time. `Fits` says of such a part that the array holds
it, and that its slots, some others and the free ones are all the slots there are, each of them
once. `Fits.focus` goes from a node to one of its children and `Fits.plug` back to the node, with
whatever the child has become in the meantime, as long as the others are kept.

`Represents` is the relation between the array and the trie.
-/

namespace Concordance

/-- A trie with the slots of its nodes. -/
inductive Plot where
  | node (slot : Slot) (ids : List DocId) (kids : List (Char × Plot))

namespace Plot

def slot : Plot → Slot
  | node slot _ _ => slot

/-- What every node inherits from its children holds of every plot. -/
theorem induction {motive : Plot → Prop}
    (node : ∀ slot ids kids, (∀ e ∈ kids, motive e.2) → motive (.node slot ids kids)) :
    ∀ p, motive p
  | .node slot ids kids => node slot ids kids fun e _ => induction node e.2
termination_by p => sizeOf p
decreasing_by
  have hlt := List.sizeOf_lt_of_mem ‹_›
  have hpair : sizeOf e = 1 + sizeOf e.1 + sizeOf e.2 := by cases e; rfl
  simp only [Plot.node.sizeOf_spec]
  omega

mutual

/-- The slots of all nodes. -/
def slots : Plot → List Slot
  | node slot _ kids => slot :: slotsBelow kids

def slotsBelow : List (Char × Plot) → List Slot
  | [] => []
  | (_, p) :: rest => slots p ++ slotsBelow rest

end

mutual

/-- The trie without the slots. -/
def trie : Plot → Trie
  | node _ ids kids => .node ids (triesBelow kids)

def triesBelow : List (Char × Plot) → List (Char × Trie)
  | [] => []
  | (c, p) :: rest => (c, trie p) :: triesBelow rest

end

theorem triesBelow_eq (kids : List (Char × Plot)) :
    triesBelow kids = kids.map fun e => (e.1, e.2.trie) := by
  induction kids with
  | nil => rfl
  | cons head rest ih => rw [triesBelow, ih]; rfl

theorem triesBelow_append (l r : List (Char × Plot)) :
    triesBelow (l ++ r) = triesBelow l ++ triesBelow r := by
  rw [triesBelow_eq, triesBelow_eq, triesBelow_eq, List.map_append]

theorem triesBelow_append_cons (l r : List (Char × Plot)) (c : Char) (p : Plot) :
    triesBelow (l ++ (c, p) :: r) = triesBelow l ++ (c, p.trie) :: triesBelow r := by
  rw [triesBelow_append, triesBelow]

theorem slotsBelow_append (l r : List (Char × Plot)) :
    slotsBelow (l ++ r) = slotsBelow l ++ slotsBelow r := by
  induction l with
  | nil => rfl
  | cons head rest ih =>
    rw [List.cons_append, slotsBelow, slotsBelow, ih, List.append_assoc]

theorem mem_slots_self (p : Plot) : p.slot ∈ p.slots := by
  obtain ⟨slot, ids, kids⟩ := p
  rw [slots]
  exact List.mem_cons_self

theorem mem_slotsBelow {kids : List (Char × Plot)} {e : Char × Plot} (he : e ∈ kids) {s : Slot}
    (hs : s ∈ e.2.slots) : s ∈ slotsBelow kids := by
  induction kids with
  | nil => cases he
  | cons head rest ih =>
    rw [slotsBelow]
    rcases List.mem_cons.mp he with rfl | he
    · exact List.mem_append_left _ hs
    · exact List.mem_append_right _ (ih he)

theorem ascending_triesBelow {kids : List (Char × Plot)} :
    Children.Ascending (triesBelow kids) ↔ Children.Ascending kids := by
  rw [triesBelow_eq, Children.Ascending, List.pairwise_map]
  rfl

/-- The children of a node by their slots, as the node has them. -/
def links (kids : List (Char × Plot)) : Children Slot :=
  kids.map fun e => (e.1, e.2.slot)

theorem links_append (l r : List (Char × Plot)) : links (l ++ r) = links l ++ links r :=
  List.map_append

theorem links_append_cons (l r : List (Char × Plot)) (c : Char) (p : Plot) :
    links (l ++ (c, p) :: r) = links l ++ (c, p.slot) :: links r := by
  rw [links_append]
  rfl

theorem around_links {c : Char} {l r : List (Char × Plot)} (h : Children.Around c l r) :
    Children.Around c (links l) (links r) :=
  h.map slot

theorem around_triesBelow {c : Char} {l r : List (Char × Plot)} (h : Children.Around c l r) :
    Children.Around c (triesBelow l) (triesBelow r) := by
  rw [triesBelow_eq, triesBelow_eq]
  exact h.map trie

end Plot

open Plot

namespace Arena

/-! ## Single nodes -/

/-- What a change of one node does. -/
structure Sets (a a' : Arena) (slot : Slot) (node : Node) : Prop where
  node?_self : a'.node? slot = some node
  node?_of_ne : ∀ s, s ≠ slot → a'.node? s = a.node? s
  size_eq : a'.nodes.size = a.nodes.size
  free_eq : a'.free = a.free

theorem exists_modify? {a : Arena} {slot : Slot} {node : Node} (h : a.node? slot = some node)
    (f : Node → Node) : ∃ a', a.modify? slot f = some a' ∧ a.Sets a' slot (f node) := by
  obtain ⟨hlt, hnode⟩ := Array.getElem?_eq_some_iff.mp h
  refine ⟨_, if_pos hlt, ?_, fun s hs => ?_, Array.size_modify, rfl⟩
  · rw [node?, Array.getElem?_modify, if_pos rfl, Array.getElem?_eq_getElem hlt, hnode]
    rfl
  · rw [node?, Array.getElem?_modify, if_neg (Ne.symm hs)]
    rfl

/-- The nodes in some slots are the same. -/
def Keeps (a a' : Arena) (slots : List Slot) : Prop :=
  ∀ s ∈ slots, a'.node? s = a.node? s

theorem Keeps.refl (a : Arena) (slots : List Slot) : a.Keeps a slots :=
  fun _ _ => rfl

theorem Keeps.trans {a a' a'' : Arena} {slots : List Slot} (h : a.Keeps a' slots)
    (h' : a'.Keeps a'' slots) : a.Keeps a'' slots :=
  fun s hs => (h' s hs).trans (h s hs)

theorem Keeps.mono {a a' : Arena} {slots slots' : List Slot} (h : a.Keeps a' slots)
    (hsub : ∀ s ∈ slots', s ∈ slots) : a.Keeps a' slots' :=
  fun s hs => h s (hsub s hs)

/-- A change of one node keeps all others. -/
theorem Sets.keeps {a a' : Arena} {slot : Slot} {node : Node} {slots : List Slot}
    (h : a.Sets a' slot node) (hne : ∀ s ∈ slots, s ≠ slot) : a.Keeps a' slots :=
  fun s hs => h.node?_of_ne s (hne s hs)

/-! ## Plots -/

/-- The nodes of a plot that hangs under a character and below a parent. -/
inductive Holds (a : Arena) : Option Char → Option Slot → Plot → Prop where
  | node {label : Option Char} {parent : Option Slot} {slot : Slot} {ids : List DocId}
      {kids : List (Char × Plot)}
      (here : a.node? slot = some ⟨label, ids, links kids, parent⟩)
      (within : ∀ e ∈ kids, a.Holds (some e.1) (some slot) e.2) :
      a.Holds label parent (.node slot ids kids)

variable {a a' : Arena} {label : Option Char} {parent : Option Slot} {p : Plot}
  {others : List Slot}

theorem Holds.node?_slot (h : a.Holds label parent p) :
    ∃ node, a.node? p.slot = some node ∧ node.label = label ∧ node.parent = parent ∧
      node.ids = p.trie.ids := by
  obtain ⟨here, _⟩ := h
  exact ⟨_, here, rfl, rfl, rfl⟩

/-- A plot stays where its own nodes are kept. -/
theorem Holds.of_keeps (h : a.Holds label parent p) (hkeeps : a.Keeps a' p.slots) :
    a'.Holds label parent p := by
  induction h with
  | @node label parent slot ids kids here within ih =>
    rw [slots] at hkeeps
    refine .node ((hkeeps slot List.mem_cons_self).trans here) fun e he => ih e he ?_
    exact hkeeps.mono fun s hs => List.mem_cons_of_mem _ (mem_slotsBelow he hs)

/-- A plot with slots that it shares neither with itself nor with others, nor with the free ones:
together they are all the slots there are. -/
structure Fits (a : Arena) (label : Option Char) (parent : Option Slot) (p : Plot)
    (others : List Slot) : Prop where
  holds : a.Holds label parent p
  tiles : (p.slots ++ others ++ a.free).Perm (List.range a.nodes.size)

theorem Fits.nodup (h : a.Fits label parent p others) : (p.slots ++ others ++ a.free).Nodup :=
  h.tiles.nodup_iff.mpr List.nodup_range

/-- A node is in none of the slots below it, and in none of the other slots. -/
theorem Fits.ne_slot {slot : Slot} {ids : List DocId} {kids : List (Char × Plot)}
    (h : a.Fits label parent (.node slot ids kids) others) :
    ∀ s ∈ slotsBelow kids ++ others, s ≠ slot := by
  have hnodup := (List.nodup_append.mp h.nodup).1
  rw [slots, List.cons_append] at hnodup
  exact fun s hs hslot => (List.nodup_cons.mp hnodup).1 (hslot ▸ hs)

/-- What is left of a node without one of its children. -/
abbrev context (slot : Slot) (l r : List (Char × Plot)) (others : List Slot) : List Slot :=
  slot :: (slotsBelow l ++ slotsBelow r ++ others)

/-- From a node to one of its children. -/
theorem Fits.focus {slot : Slot} {ids : List DocId} {l r : List (Char × Plot)} {c : Char}
    {child : Plot} (h : a.Fits label parent (.node slot ids (l ++ (c, child) :: r)) others) :
    a.Fits (some c) (some slot) child (context slot l r others) := by
  obtain ⟨⟨_, within⟩, tiles⟩ := h
  refine ⟨within (c, child) (by simp), List.Perm.trans ?_ tiles⟩
  rw [List.perm_iff_count]
  intro s
  simp only [context, slots, slotsBelow_append, slotsBelow, List.count_append, List.count_cons]
  omega

/-- From a child back to its node, which may have got or changed that child meanwhile. -/
theorem Fits.plug {slot : Slot} {ids : List DocId} {l r : List (Char × Plot)} {c : Char}
    {child : Plot} (hchild : a.Fits (some c) (some slot) child (context slot l r others))
    (here : a.node? slot = some ⟨label, ids, links (l ++ (c, child) :: r), parent⟩)
    (within : ∀ e ∈ l ++ r, a.Holds (some e.1) (some slot) e.2) :
    a.Fits label parent (.node slot ids (l ++ (c, child) :: r)) others := by
  refine ⟨.node here fun e he => ?_, List.Perm.trans ?_ hchild.tiles⟩
  · rcases List.mem_append.mp he with he | he
    · exact within e (List.mem_append_left r he)
    rcases List.mem_cons.mp he with rfl | he
    · exact hchild.holds
    · exact within e (List.mem_append_right l he)
  · rw [List.perm_iff_count]
    intro s
    simp only [context, slots, slotsBelow_append, slotsBelow, List.count_append, List.count_cons]
    omega

/-- A child may become any plot in the same slot, where the other nodes are kept. -/
theorem Fits.replace {slot : Slot} {ids : List DocId} {l r : List (Char × Plot)} {c : Char}
    {child child' : Plot} (h : a.Fits label parent (.node slot ids (l ++ (c, child) :: r)) others)
    (hslot : child'.slot = child.slot)
    (hchild : a'.Fits (some c) (some slot) child' (context slot l r others))
    (hkeeps : a.Keeps a' (context slot l r others)) :
    a'.Fits label parent (.node slot ids (l ++ (c, child') :: r)) others := by
  obtain ⟨⟨here, within⟩, _⟩ := h
  refine hchild.plug ?_ fun e he => ?_
  · rw [hkeeps slot List.mem_cons_self, here]
    simp [links, hslot]
  · have hmem : e ∈ l ++ (c, child) :: r :=
      ((List.sublist_cons_self _ r).append_left l).subset he
    refine (within e hmem).of_keeps (hkeeps.mono fun s hs => List.mem_cons_of_mem _ ?_)
    have hbelow := mem_slotsBelow he hs
    rw [slotsBelow_append] at hbelow
    exact List.mem_append_left _ hbelow

/-- What is kept around a child is kept around its node. -/
theorem Keeps.of_context {slot : Slot} {l r : List (Char × Plot)}
    (h : a.Keeps a' (context slot l r others)) : a.Keeps a' others :=
  h.mono fun _ hs => List.mem_cons_of_mem _ (List.mem_append_right _ hs)

/-- A change of the documents of a node. -/
theorem Fits.modifyIds {slot : Slot} {ids : List DocId} {kids : List (Char × Plot)}
    (h : a.Fits label parent (.node slot ids kids) others) (f : List DocId → List DocId) :
    ∃ a', (a.modify? slot fun node => { node with ids := f node.ids }) = some a' ∧
      a'.Fits label parent (.node slot (f ids) kids) others ∧ a.Keeps a' others := by
  obtain ⟨here, within⟩ := h.holds
  obtain ⟨a', heq, hsets⟩ := exists_modify? here fun node => { node with ids := f node.ids }
  have hkeeps := hsets.keeps h.ne_slot
  refine ⟨a', heq, ⟨.node hsets.node?_self fun e he => ?_, ?_⟩,
    hkeeps.mono fun s hs => List.mem_append_right _ hs⟩
  · exact (within e he).of_keeps (hkeeps.mono fun s hs =>
      List.mem_append_left _ (mem_slotsBelow he hs))
  · rw [hsets.size_eq, hsets.free_eq]
    exact h.tiles

/-! ## The whole index -/

/-- The array holds a plot from the root on, and all its slots are those of the plot or free. -/
structure Lays (a : Arena) (p : Plot) : Prop where
  fits : a.Fits none none p []
  slot_eq : p.slot = root

/-- The index in the array is a trie. -/
def Represents (a : Arena) (t : Trie) : Prop :=
  ∃ p, a.Lays p ∧ p.trie = t

theorem Holds.trieFrom?_eq (h : a.Holds label parent p) : a.trieFrom? p.slot = some p.trie := by
  induction h with
  | @node label parent slot ids kids here within ih =>
    have hkids : (links kids).mapM (fun e => do return (e.1, ← a.trieFrom? e.2)) =
        some (triesBelow kids) := by
      clear here within
      induction kids with
      | nil => rfl
      | cons head rest ihrest =>
        have hrest := ihrest fun e he => ih e (List.mem_cons_of_mem _ he)
        rw [links, List.map_cons, List.mapM_cons, ih head List.mem_cons_self, ← links, hrest]
        rfl
    rw [Plot.slot, trieFrom?, here, Option.bind_eq_bind, Option.bind_some, hkids]
    rfl

/-- The trie can be read from the array. -/
theorem Represents.trie?_eq {t : Trie} (h : a.Represents t) : a.trie? = some t := by
  obtain ⟨p, ⟨hfits, hroot⟩, rfl⟩ := h
  rw [trie?, ← hroot, hfits.holds.trieFrom?_eq]

/-- The array holds one trie only. -/
theorem Represents.unique {t t' : Trie} (h : a.Represents t) (h' : a.Represents t') : t = t' := by
  rw [← Option.some_inj, ← h.trie?_eq, h'.trie?_eq]

theorem represents_empty : empty.Represents .empty :=
  ⟨.node root [] [], ⟨⟨.node rfl nofun, by decide⟩, rfl⟩, rfl⟩

end Arena

end Concordance
