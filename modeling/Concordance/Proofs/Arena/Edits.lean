import Concordance.Proofs.Arena.Plot
import Concordance.Proofs.Trie.Reachable
import Mathlib.Data.List.Induction

/-!
# Edits in the array

Every edit of the index in the array is the edit of the trie (`Represents.edit`), and it always comes
to an end within the array.

Each operation is followed on a part of the tree (`Fits`): it changes that part as the operation on
tries does, and keeps the nodes in the other slots. `exists_insertFrom?` goes down the word, with one
case for a child that is there and one for a child that is made. `Removes` says what the loop does for
one node and everything below it; the induction is on the plot (`removes`), and within a node it goes
from the last child to the first, as the stack does (`drain_removeEach`).
-/

namespace Concordance.Arena

open Plot

variable {a : Arena} {label : Option Char} {parent : Option Slot} {slot : Slot} {ids : List DocId}
  {others : List Slot}

/-! ## Making a node -/

/-- A new node goes into a slot that was not in use. -/
theorem exists_place? {used : List Slot}
    (h : (used ++ a.free).Perm (List.range a.nodes.size)) (node : Node) :
    ∃ a' slot, a.place? node = some (a', slot) ∧ slot ∉ used ∧ a'.node? slot = some node ∧
      a.Keeps a' used ∧ (slot :: used ++ a'.free).Perm (List.range a'.nodes.size) := by
  obtain ⟨nodes, free⟩ := a
  cases free with
  | nil =>
    rw [List.append_nil] at h
    have hnew : nodes.size ∉ used := fun hmem => by simpa using h.mem_iff.mp hmem
    refine ⟨_, _, rfl, hnew, Array.getElem?_push_size, fun s hs => ?_, ?_⟩
    · have hlt : s < nodes.size := by simpa using h.mem_iff.mp hs
      simp [node?, Array.getElem?_push, Nat.ne_of_lt hlt]
    · rw [List.append_nil, Array.size_push, List.range_succ]
      exact (List.perm_append_singleton _ _).symm.trans (h.append_right _)
  | cons slot free =>
    have hlt : slot < nodes.size := by
      simpa using h.mem_iff.mp (List.mem_append_right used List.mem_cons_self)
    have hnew : slot ∉ used := fun hmem =>
      (List.nodup_append.mp (h.nodup_iff.mpr List.nodup_range)).2.2 slot hmem slot
        List.mem_cons_self rfl
    have hthere : (Arena.mk nodes free).node? slot = some nodes[slot] :=
      Array.getElem?_eq_getElem hlt
    obtain ⟨a', heq, hsets⟩ := exists_modify? hthere fun _ => node
    refine ⟨a', slot, ?_, hnew, hsets.node?_self, fun s hs => ?_, ?_⟩
    · simp [place?, heq]
    · exact hsets.node?_of_ne s fun hslot => hnew (hslot ▸ hs)
    · rw [hsets.free_eq, hsets.size_eq]
      exact List.perm_middle.symm.trans h

/-- A new node below another is one more child of it, between those that come before and after. -/
theorem exists_allocate? {l r : List (Char × Plot)} {c : Char}
    (h : a.Fits label parent (.node slot ids (l ++ r)) others) (hc : Children.Around c l r) :
    ∃ a' s, a.allocate? slot c = some (a', s) ∧
      a'.Fits label parent (.node slot ids (l ++ (c, .node s [] []) :: r)) others ∧
      a.Keeps a' others := by
  obtain ⟨a₁, s, hplace, -, hs, hkeeps₁, htiles⟩ :=
    exists_place? h.tiles { label := some c, parent := some slot }
  -- Until its parent knows it, the new node is one of the others.
  have h₁ : a₁.Fits label parent (.node slot ids (l ++ r)) (s :: others) :=
    ⟨h.holds.of_keeps (hkeeps₁.mono fun _ hs' => List.mem_append_left _ hs'),
      (List.perm_middle.append_right _).trans htiles⟩
  obtain ⟨here, within⟩ := h₁.holds
  obtain ⟨a₂, hmodify, hsets⟩ := exists_modify? here fun node =>
    { node with children := node.children.put c s }
  have hkeeps₂ := hsets.keeps h₁.ne_slot
  have hput : Children.put c s (links (l ++ r)) = links (l ++ (c, .node s [] []) :: r) := by
    rw [links_append, Children.put, (around_links hc).upsert_append, links_append_cons, Plot.slot]
  have hchild : a₂.Fits (some c) (some slot) (.node s [] []) (context slot l r others) := by
    refine ⟨.node ((hkeeps₂ s (by simp)).trans hs) (List.forall_mem_nil _), ?_⟩
    rw [hsets.free_eq, hsets.size_eq]
    refine List.Perm.trans ?_ htiles
    rw [List.perm_iff_count]
    intro s'
    simp only [context, slots, slotsBelow_append, slotsBelow, List.count_append, List.count_cons,
      List.count_nil]
    omega
  refine ⟨a₂, s, ?_, hchild.plug ?_ fun e he => ?_, ?_⟩
  · simp [allocate?, hplace, hmodify]
  · rw [hsets.node?_self, hput]
  · exact (within e he).of_keeps (hkeeps₂.mono fun _ hs' =>
      List.mem_append_left _ (mem_slotsBelow he hs'))
  · exact (hkeeps₁.mono fun _ hs' => List.mem_append_right _ hs').trans (hkeeps₂.mono fun _ hs' =>
      List.mem_append_right _ (List.mem_cons_of_mem _ hs'))

/-! ## Putting in a word -/

/-- A word is followed, and its document put in, as in the trie. -/
theorem exists_insertFrom? (d : DocId) (cs : List Char) {p : Plot} (h : a.Fits label parent p others)
    (hw : p.trie.WellFormed) :
    ∃ a' p', insertFrom? d p.slot cs a = some a' ∧ a'.Fits label parent p' others ∧
      p'.slot = p.slot ∧ p'.trie = p.trie.insert d cs ∧ a.Keeps a' others := by
  induction cs generalizing a label parent p others with
  | nil =>
    obtain ⟨slot, ids, kids⟩ := p
    obtain ⟨a', heq, hfits, hkeeps⟩ := h.modifyIds (Trie.addId d)
    exact ⟨a', _, heq, hfits, rfl, by rw [trie, trie, Trie.insert], hkeeps⟩
  | cons c cs ih =>
    obtain ⟨slot, ids, kids⟩ := p
    obtain ⟨here, _⟩ := h.holds
    rw [trie] at hw
    obtain ⟨_, hasc, hwithin⟩ := hw
    obtain ⟨l, r, hc, rfl | ⟨child, rfl⟩⟩ :=
      (ascending_triesBelow.mp hasc).exists_around c
    · -- The child is made first, and the rest of the word goes below it.
      obtain ⟨a₁, s, hallocate, hfits, hkeeps⟩ := exists_allocate? h hc
      obtain ⟨a', child', heq, hchild, hslot, htrie, hkeeps'⟩ :=
        ih hfits.focus (p := .node s [] []) .empty
      refine ⟨a', .node slot ids (l ++ (c, child') :: r), ?_, hfits.replace hslot hchild hkeeps', rfl,
        ?_, hkeeps.trans hkeeps'.of_context⟩
      · have hlook : (links (l ++ r)).lookup c = none := by
          rw [links_append, (around_links hc).lookup_append]
        simp only [insertFrom?, Plot.slot, here, hlook, hallocate, Option.bind_eq_bind,
          Option.bind_some]
        exact heq
      · rw [trie, trie, Trie.insert, triesBelow_append_cons, htrie, triesBelow_append,
          (around_triesBelow hc).upsert_append]
        rfl
    · obtain ⟨a', child', heq, hchild, hslot, htrie, hkeeps⟩ := ih h.focus
        (hwithin (c, child.trie) (by simp [triesBelow_append_cons]))
      refine ⟨a', .node slot ids (l ++ (c, child') :: r), ?_, h.replace hslot hchild hkeeps, rfl, ?_,
        hkeeps.of_context⟩
      · have hlook : (links (l ++ (c, child) :: r)).lookup c = some child.slot := by
          rw [links_append_cons, (around_links hc).lookup_append_cons]
        simp only [insertFrom?, Plot.slot, here, hlook, Option.bind_eq_bind, Option.bind_some]
        exact heq
      · rw [trie, trie, Trie.insert, triesBelow_append_cons, htrie, triesBelow_append_cons,
          (around_triesBelow hc).upsert_append_cons]
        rfl

theorem Represents.insert {t : Trie} (h : a.Represents t) (hw : t.WellFormed) (d : DocId)
    (word : String) :
    ∃ a', a.insert? d word = some a' ∧ a'.Represents (t.insert d word.toList) := by
  obtain ⟨p, ⟨hfits, hroot⟩, rfl⟩ := h
  obtain ⟨a', p', heq, hfits', hslot, htrie, _⟩ := exists_insertFrom? d word.toList hfits hw
  rw [hroot] at heq hslot
  exact ⟨a', heq, p', ⟨hfits', hslot⟩, htrie⟩

/-! ## Taking out a node -/

/-- A vacant child is taken out, and its slot becomes free. -/
theorem exists_detach? {l r : List (Char × Plot)} {c : Char} {s : Slot}
    (h : a.Fits label parent (.node slot ids (l ++ (c, .node s [] []) :: r)) others)
    (hc : Children.Around c l r) :
    ∃ a', a.detach? s = some a' ∧ a'.Fits label parent (.node slot ids (l ++ r)) others ∧
      a.Keeps a' others := by
  have hchild := h.focus
  obtain ⟨hs, -⟩ := hchild.holds
  obtain ⟨here, within⟩ := h.holds
  obtain ⟨a₁, hclear, hsets₁⟩ := exists_modify? hs fun _ => {}
  have hkeeps₁ : a.Keeps a₁ (context slot l r others) := hsets₁.keeps hchild.ne_slot
  obtain ⟨a₂, herase, hsets₂⟩ := exists_modify? ((hkeeps₁ slot List.mem_cons_self).trans here)
    fun node => { node with children := node.children.erase c }
  have hkeeps₂ : a₁.Keeps a₂ (slotsBelow l ++ slotsBelow r ++ others) :=
    hsets₂.keeps fun s' hs' => h.ne_slot s' (by
      rw [slotsBelow_append, slotsBelow]
      grind)
  have hkeeps : a.Keeps { a₂ with free := s :: a₂.free } (slotsBelow l ++ slotsBelow r ++ others) :=
    (hkeeps₁.mono fun _ hs' => List.mem_cons_of_mem _ hs').trans hkeeps₂
  refine ⟨{ a₂ with free := s :: a₂.free }, ?_, ⟨.node ?_ fun e he => ?_, ?_⟩, hkeeps.mono
    fun _ hs' => List.mem_append_right _ hs'⟩
  · simp [detach?, hs, hclear, herase]
  · refine hsets₂.node?_self.trans ?_
    rw [links_append_cons, (around_links hc).erase_append_cons, links_append]
  · have hmem : e ∈ l ++ (c, Plot.node s [] []) :: r :=
      ((List.sublist_cons_self _ r).append_left l).subset he
    refine (within e hmem).of_keeps (hkeeps.mono fun _ hs' => List.mem_append_left _ ?_)
    rw [← slotsBelow_append]
    exact mem_slotsBelow he hs'
  · refine List.Perm.trans ?_ (hsets₂.size_eq ▸ hsets₁.size_eq ▸ h.tiles)
    rw [hsets₂.free_eq, hsets₁.free_eq, List.perm_iff_count]
    intro s'
    simp only [slots, slotsBelow_append, slotsBelow, List.count_append, List.count_cons,
      List.count_nil]
    omega

/-! ## Removing a document -/

theorem Holds.isVacant_eq {p : Plot} (h : a.Holds label parent p) :
    ∃ node, a.node? p.slot = some node ∧ node.isVacant = p.trie.isVacant := by
  obtain ⟨here, _⟩ := h
  refine ⟨_, here, ?_⟩
  rename_i ids kids _
  cases ids <;> cases kids <;> rfl

theorem eq_leaf_of_isVacant {p : Plot} (h : p.trie.isVacant = true) : p = .node p.slot [] [] := by
  match p with
  | .node _ [] [] => rfl
  | .node _ (_ :: _) _ => cases h
  | .node _ [] (_ :: _) => cases h

theorem vacantAmong?_links {kids : List (Char × Plot)}
    (h : ∀ e ∈ kids, a.Holds (some e.1) (some slot) e.2) :
    a.vacantAmong? ((links kids).map Prod.snd) =
      some ((kids.filter fun e => e.2.trie.isVacant).map fun e => e.2.slot) := by
  induction kids with
  | nil => rfl
  | cons head rest ih =>
    obtain ⟨node, hnode, hvacant⟩ := (h head List.mem_cons_self).isVacant_eq
    have hrest := ih fun e he => h e (List.mem_cons_of_mem _ he)
    rw [links] at hrest
    rw [links, List.map_cons, List.map_cons, vacantAmong?, hrest, hnode, List.filter_cons, ← hvacant]
    simp only [Option.bind_eq_bind, Option.bind_some, Option.pure_def]
    split <;> rfl

/-- The vacant ones among the last children are taken out one after the other. -/
theorem exists_detachAll (kept rest : List (Char × Plot))
    (h : a.Fits label parent (.node slot ids (kept ++ rest)) others)
    (hasc : Children.Ascending (kept ++ rest)) :
    ∃ a', ((rest.filter fun e => e.2.trie.isVacant).map fun e => e.2.slot).foldlM detach? a =
        some a' ∧
      a'.Fits label parent
        (.node slot ids (kept ++ rest.filter fun e => !e.2.trie.isVacant)) others ∧
      a.Keeps a' others := by
  induction rest generalizing a kept with
  | nil => exact ⟨a, rfl, h, .refl a others⟩
  | cons head rest ih =>
    obtain ⟨c, p⟩ := head
    cases hvacant : p.trie.isVacant with
    | false =>
      have hshift : kept ++ (c, p) :: rest = kept ++ [(c, p)] ++ rest := by simp
      rw [hshift] at h hasc
      obtain ⟨a', heq, hfits, hkeeps⟩ := ih (kept ++ [(c, p)]) h hasc
      refine ⟨a', ?_, ?_, hkeeps⟩
      · rwa [List.filter_cons_of_neg (by simp [hvacant])]
      · rwa [List.filter_cons_of_pos (by simp [hvacant]), List.append_cons]
    | true =>
      rw [eq_leaf_of_isVacant hvacant] at h
      obtain ⟨a₁, hdetach, hfits₁, hkeeps₁⟩ := exists_detach? h hasc.around
      have hasc₁ : Children.Ascending (kept ++ rest) :=
        List.Pairwise.sublist ((List.sublist_cons_self _ _).append_left kept) hasc
      obtain ⟨a', heq, hfits, hkeeps⟩ := ih kept hfits₁ hasc₁
      refine ⟨a', ?_, ?_, hkeeps₁.trans hkeeps⟩
      · rw [List.filter_cons_of_pos (by exact hvacant), List.map_cons, List.foldlM_cons, hdetach]
        exact heq
      · rwa [List.filter_cons_of_neg (by simp [hvacant])]

/-- When a node comes up for the second time it loses its vacant children. -/
theorem exists_removeVisit_done (d : DocId) {kids : List (Char × Plot)}
    (h : a.Fits label parent (.node slot ids kids) others) (hasc : Children.Ascending kids) :
    ∃ a', removeVisit d a (slot, true) = some (a', []) ∧
      a'.Fits label parent (.node slot ids (kids.filter fun e => !e.2.trie.isVacant)) others ∧
      a.Keeps a' others := by
  obtain ⟨here, within⟩ := h.holds
  obtain ⟨a', heq, hfits, hkeeps⟩ := exists_detachAll [] kids h hasc
  exact ⟨a', by simp [removeVisit, here, vacantAmong?_links within, heq], hfits, hkeeps⟩

/-- What the loop does for a node and all that is below it: the document is taken out there as it is
from a trie, and then the loop goes on with what was below on the stack. -/
def Removes (d : DocId) (p : Plot) : Prop :=
  ∀ (a : Arena) (label : Option Char) (parent : Option Slot) (others : List Slot)
    (stack : List (Slot × Bool)), a.Fits label parent p others →
    ∃ a' p', drain (removeVisit d) a ((p.slot, false) :: stack) = drain (removeVisit d) a' stack ∧
      a'.Fits label parent p' others ∧ p'.slot = p.slot ∧ p'.trie = p.trie.remove d ∧
      a.Keeps a' others

/-- The first children of a node, from the last of them to the first. -/
theorem drain_removeEach (d : DocId) (l done : List (Char × Plot)) (hl : ∀ e ∈ l, Removes d e.2)
    (h : a.Fits label parent (.node slot ids (l ++ done)) others) (stack : List (Slot × Bool)) :
    ∃ a' l', drain (removeVisit d) a ((l.map fun e => (e.2.slot, false)).reverse ++ stack) =
        drain (removeVisit d) a' stack ∧
      a'.Fits label parent (.node slot ids (l' ++ done)) others ∧
      triesBelow l' = (triesBelow l).map (fun e => (e.1, e.2.remove d)) ∧ a.Keeps a' others := by
  induction l using List.reverseRecOn generalizing a done with
  | nil => exact ⟨a, [], rfl, h, rfl, .refl a others⟩
  | append_singleton l e ih =>
    obtain ⟨c, p⟩ := e
    rw [List.append_assoc, List.singleton_append] at h
    obtain ⟨a₁, p', hdrain, hfits, hslot, htrie, hkeeps⟩ :=
      hl (c, p) (by simp) a _ _ _ ((l.map fun e => (e.2.slot, false)).reverse ++ stack) h.focus
    have h₁ := h.replace hslot hfits hkeeps
    obtain ⟨a', l', hdrain', hfits', htries, hkeeps'⟩ :=
      ih ((c, p') :: done) (fun e he => hl e (List.mem_append_left _ he)) h₁
    refine ⟨a', l' ++ [(c, p')], ?_, ?_, ?_, hkeeps.of_context.trans hkeeps'⟩
    · rw [List.map_append, List.reverse_append]
      exact hdrain.trans hdrain'
    · rwa [List.append_assoc]
    · rw [triesBelow_append, triesBelow_append, List.map_append, htries]
      simp [triesBelow, htrie]

theorem removes (d : DocId) (p : Plot) (hw : p.trie.WellFormed) : Removes d p := by
  induction p using Plot.induction with
  | node slot ids kids ih =>
    intro a label parent others stack h
    rw [trie] at hw
    obtain ⟨_, hasc, hwithin⟩ := hw
    -- First the document leaves the node itself.
    obtain ⟨a₁, hmodify, hfits₁, hkeeps₁⟩ := h.modifyIds fun ids => ids.filter (· != d)
    obtain ⟨here₁, _⟩ := hfits₁.holds
    have hfirst : removeVisit d a (slot, false) =
        some (a₁, (slot, true) :: kids.map fun e => (e.2.slot, false)) := by
      simp [removeVisit, hmodify, here₁, links]
    -- Then come its children, from the last one, and then the node again.
    have hkids : ∀ e ∈ kids, Removes d e.2 := fun e he =>
      ih e he (hwithin (e.1, e.2.trie) (by rw [triesBelow_eq]; exact List.mem_map_of_mem he))
    rw [← List.append_nil kids] at hfits₁
    obtain ⟨a₂, kids', hdrain₂, hfits₂, htries, hkeeps₂⟩ :=
      drain_removeEach d kids [] hkids hfits₁ ((slot, true) :: stack)
    rw [List.append_nil] at hfits₂
    have hasc' : Children.Ascending kids' := by
      rw [← ascending_triesBelow, htries]
      exact hasc.map _
    obtain ⟨a', hdone, hfits', hkeeps'⟩ := exists_removeVisit_done d hfits₂ hasc'
    refine ⟨a', _, ?_, hfits', rfl, ?_, (hkeeps₁.trans hkeeps₂).trans hkeeps'⟩
    · rw [Plot.slot, drain_cons hfirst, List.reverse_cons, List.append_assoc, List.singleton_append,
        hdrain₂, drain_cons hdone]
      rfl
    · rw [trie, trie, Trie.remove, Trie.removeBelow_eq, ← htries, triesBelow_eq, triesBelow_eq,
        List.filter_map]
      rfl

/-- There is nothing to remove from the empty index. -/
theorem remove?_empty (d : DocId) : empty.remove? d = some empty :=
  drain_eq_of_within 2 rfl

theorem Represents.remove {t : Trie} (h : a.Represents t) (hw : t.WellFormed) (d : DocId) :
    ∃ a', a.remove? d = some a' ∧ a'.Represents (t.remove d) := by
  obtain ⟨p, ⟨hfits, hroot⟩, rfl⟩ := h
  obtain ⟨a', p', hdrain, hfits', hslot, htrie, _⟩ := removes d p hw a none none [] [] hfits
  rw [hroot] at hdrain hslot
  exact ⟨a', hdrain.trans drain_nil, p', ⟨hfits', hslot⟩, htrie⟩

theorem Represents.addDocument {t : Trie} (h : a.Represents t) (hw : t.WellFormed) (d : DocId)
    (words : List String) :
    ∃ a', a.addDocument? d words = some a' ∧ a'.Represents (t.addDocument d words) := by
  obtain ⟨a₁, hremove, h₁⟩ := h.remove hw d
  rw [addDocument?, hremove, Trie.addDocument]
  have hw₁ := hw.remove d
  clear hremove
  generalize t.remove d = t₁ at h₁ hw₁ ⊢
  induction words generalizing a₁ t₁ with
  | nil => exact ⟨a₁, rfl, h₁⟩
  | cons word words ih =>
    obtain ⟨a₂, hinsert, h₂⟩ := h₁.insert hw₁ d word
    obtain ⟨a', hrest, h'⟩ := ih a₂ _ h₂ (hw₁.insert d word.toList)
    refine ⟨a', ?_, h'⟩
    rw [Option.bind_eq_bind, Option.bind_some, List.foldlM_cons, hinsert]
    exact hrest

/-! ## All edits -/

/-- The index in the array after a change. -/
def edit? (a : Arena) : Trie.Edit → Option Arena
  | .add d words => a.addDocument? d words
  | .remove d => a.remove? d
  | .clear => some empty

/-- **Edits in the array** come to an end, and are those of the trie. -/
theorem Represents.edit {t : Trie} (h : a.Represents t) (hw : t.WellFormed) (e : Trie.Edit) :
    ∃ a', a.edit? e = some a' ∧ a'.Represents (e.apply t) := by
  cases e with
  | add d words => exact h.addDocument hw d words
  | remove d => exact h.remove hw d
  | clear => exact ⟨empty, rfl, represents_empty⟩

end Concordance.Arena
