import Concordance.Proofs.Arena.Edits
import Concordance.Arena.Snapshot

/-!
# Records into the array

`ofRecord?` puts one node after the other into the array. The children of a record get their nodes
before anything below them does, and the stack keeps for each of these nodes what is below it.

`Grows` says what the loop does with one item of the stack: where a character is misplaced below the
record it ends with the fault that `mislabelledBelow?` finds, and else the node gets the trie of the
record and the loop goes on. `grows` proves it, by induction on the record; within a record it goes
from the last child to the first, as the stack does. So the loop makes what the recursion over the
record makes (`agrees_ofRecord`).
-/

namespace Concordance.Arena

open Plot Snapshot Snapshot.Record

variable {a : Arena} {label : Option Char} {parent : Option Slot} {slot : Slot} {ids : List DocId}
  {others : List Slot}

/-! ## One node -/

/-- Documents come to a node one after the other. -/
theorem exists_addIds (added : List DocId) {kids : List (Char × Plot)}
    (h : a.Fits label parent (.node slot ids kids) others) :
    ∃ a', added.foldlM (fun a d => a.modify? slot fun node =>
          { node with ids := Trie.addId d node.ids }) a = some a' ∧
      a'.Fits label parent
        (.node slot (added.foldl (fun seen d => Trie.addId d seen) ids) kids) others ∧
      a.Keeps a' others := by
  induction added generalizing a ids with
  | nil => exact ⟨a, rfl, h, .refl a others⟩
  | cons d added ih =>
    obtain ⟨a₁, hmodify, hfits₁, hkeeps₁⟩ := h.modifyIds (Trie.addId d)
    obtain ⟨a', hrest, hfits, hkeeps⟩ := ih hfits₁
    refine ⟨a', ?_, hfits, hkeeps₁.trans hkeeps⟩
    rw [List.foldlM_cons, hmodify]
    exact hrest

/-- A new last child with some documents. -/
theorem exists_attach? {kids : List (Char × Plot)} {c : Char} (added : List DocId)
    (h : a.Fits label parent (.node slot ids kids) others) (hc : ∀ e ∈ kids, e.1 < c) :
    ∃ a' s, a.attach? slot c added = some (a', s) ∧
      a'.Fits label parent (.node slot ids (kids ++ [(c, .node s (Trie.distinctIds added) [])]))
        others ∧
      a.Keeps a' others := by
  rw [← List.append_nil kids] at h
  obtain ⟨a₁, s, hallocate, hfits₁, hkeeps₁⟩ := exists_allocate? h ⟨hc, nofun⟩
  obtain ⟨a', hadd, hfits, hkeeps⟩ := exists_addIds added hfits₁.focus
  refine ⟨a', s, ?_, hfits₁.replace rfl hfits hkeeps, hkeeps₁.trans hkeeps.of_context⟩
  simp only [attach?, hallocate, Option.bind_eq_bind, Option.bind_some, hadd]
  rfl

/-! ## The children of one record -/

/-- A record in the slot of its node, before anything below it is there. -/
def sprout (x : Slot × Char × Record) : Char × Plot :=
  (x.2.1, .node x.1 (Trie.distinctIds x.2.2.ids) [])

/-- What is pending for a record whose node is there. -/
def pending (x : Slot × Char × Record) : Pending :=
  (x.1, x.2.2.children)

/-- The children of a record get their nodes, and go onto the stack, unless one is misplaced. -/
theorem attachAll?_eq (rest : List (Char × Record)) (placed : List (Slot × Char × Record))
    (h : a.Fits label parent (.node slot ids (placed.map sprout)) others)
    (hasc : Children.Ascending (placed.map (fun x => x.2) ++ rest)) (stack : List Pending) :
    (∃ m, mislabelled? rest = some m ∧
        a.attachAll? slot ((placed.map pending).reverse ++ stack) rest = some (.error m)) ∨
      (mislabelled? rest = none ∧ ∃ (a' : Arena) (placed' : List (Slot × Char × Record)),
          placed'.map (fun x => x.2) = placed.map (fun x => x.2) ++ rest ∧
          a.attachAll? slot ((placed.map pending).reverse ++ stack) rest =
            some (.ok (a', (placed'.map pending).reverse ++ stack)) ∧
          a'.Fits label parent (.node slot ids (placed'.map sprout)) others ∧ a.Keeps a' others) := by
  induction rest generalizing a placed with
  | nil =>
    exact Or.inr ⟨rfl, a, placed, (List.append_nil _).symm, rfl, h, .refl a others⟩
  | cons head rest ih =>
    obtain ⟨c, ⟨label', ids', kids⟩⟩ := head
    rw [mislabelled?, attachAll?]
    by_cases hlabel : label' = some c
    · rw [if_pos (by exact hlabel), if_pos hlabel]
      obtain ⟨-, -, hless⟩ := List.pairwise_append.mp hasc
      have hc : ∀ e ∈ placed.map sprout, e.1 < c := by
        intro e he
        obtain ⟨x, hx, rfl⟩ := List.mem_map.mp he
        exact hless x.2 (List.mem_map_of_mem hx) _ List.mem_cons_self
      obtain ⟨a₁, s, hattach, hfits₁, hkeeps₁⟩ := exists_attach? ids' h hc
      have hplaced : ∀ {β : Type} (f : Slot × Char × Record → β),
          (placed ++ [(s, c, Record.node label' ids' kids)]).map f =
            placed.map f ++ [f (s, c, .node label' ids' kids)] := by simp
      have hrest := ih (placed ++ [(s, c, .node label' ids' kids)]) (by rwa [hplaced])
        (by rwa [hplaced, List.append_assoc])
      rw [hplaced, hplaced, List.append_assoc, List.reverse_append] at hrest
      rw [hattach]
      obtain ⟨m, hm, heq⟩ | ⟨hnone, a', placed', hmap, heq, hfits, hkeeps⟩ := hrest
      · exact Or.inl ⟨m, hm, heq⟩
      · exact Or.inr ⟨hnone, a', placed', hmap, heq, hfits, hkeeps₁.trans hkeeps⟩
    · rw [if_neg (by exact hlabel), if_neg hlabel]
      exact Or.inl ⟨_, rfl, rfl⟩

/-! ## The loop -/

/-- The loop, if it ends within some rounds. -/
def growWithin (a : Arena) : Nat → List Pending → Option (Except Mislabelling Arena)
  | _, [] => some (.ok a)
  | 0, _ :: _ => none
  | n + 1, (slot, kids) :: stack =>
    match a.attachAll? slot stack kids with
    | none => none
    | some (.error m) => some (.error m)
    | some (.ok (a', stack')) => a'.growWithin n stack'

theorem grow?_eq_of_within {outcome : Except Mislabelling Arena} {stack : List Pending} (n : Nat)
    (h : a.growWithin n stack = some outcome) : a.grow? stack = some outcome := by
  induction n generalizing a stack with
  | zero =>
    cases stack with
    | nil => exact (grow?_nil a).trans h
    | cons item stack => cases h
  | succ n ih =>
    cases stack with
    | nil => exact (grow?_nil a).trans h
    | cons item stack =>
      rw [grow?_cons]
      rw [growWithin] at h
      split <;> simp_all

/-- What the loop does with the children of a record, which is given without its own character. -/
def Grows (r : Record) : Prop :=
  ∀ (a : Arena) (label : Option Char) (parent : Option Slot) (slot : Slot) (ids : List DocId)
    (others : List Slot) (stack : List Pending),
    a.Fits label parent (.node slot ids []) others →
    (∃ m, r.mislabelledBelow? = some m ∧ a.grow? ((slot, r.children) :: stack) = some (.error m)) ∨
      (r.mislabelledBelow? = none ∧ ∃ a' kids,
        a.grow? ((slot, r.children) :: stack) = a'.grow? stack ∧
        a'.Fits label parent (.node slot ids kids) others ∧
        triesBelow kids = stripAll r.children ∧ a.Keeps a' others)

theorem strip_eq (r : Record) : r.strip = .node (Trie.distinctIds r.ids) (stripAll r.children) := by
  obtain ⟨label, ids, kids⟩ := r
  rfl

theorem stripAll_append (l r : List (Char × Record)) :
    stripAll (l ++ r) = stripAll l ++ stripAll r := by
  rw [stripAll_eq, stripAll_eq, stripAll_eq, List.map_append]

theorem mislabelledWithin?_concat (kids : List (Char × Record)) (e : Char × Record) :
    mislabelledWithin? (kids ++ [e]) = (mislabelledBelow? e.2 <|> mislabelledWithin? kids) := by
  induction kids with
  | nil =>
    obtain ⟨c, r⟩ := e
    rw [List.nil_append, mislabelledWithin?, mislabelledWithin?]
    cases mislabelledBelow? r <;> rfl
  | cons head rest ih =>
    rw [List.cons_append, mislabelledWithin?, mislabelledWithin?, ih]
    cases mislabelledBelow? e.2 <;> rfl

/-- What is below the children of a record comes from the last child to the first. -/
theorem growAll (placed : List (Slot × Char × Record)) (done : List (Char × Plot))
    (hgrows : ∀ x ∈ placed, Grows x.2.2)
    (h : a.Fits label parent (.node slot ids (placed.map sprout ++ done)) others)
    (stack : List Pending) :
    (∃ m, mislabelledWithin? (placed.map (fun x => x.2)) = some m ∧
        a.grow? ((placed.map pending).reverse ++ stack) = some (.error m)) ∨
      (mislabelledWithin? (placed.map (fun x => x.2)) = none ∧ ∃ a' kids,
        a.grow? ((placed.map pending).reverse ++ stack) = a'.grow? stack ∧
        a'.Fits label parent (.node slot ids (kids ++ done)) others ∧
        triesBelow kids = stripAll (placed.map (fun x => x.2)) ∧ a.Keeps a' others) := by
  induction placed using List.reverseRecOn generalizing a done with
  | nil => exact Or.inr ⟨rfl, a, [], rfl, h, rfl, .refl a others⟩
  | append_singleton placed x ih =>
    obtain ⟨s, c, r⟩ := x
    rw [List.map_append, List.map_append, List.reverse_append, List.map_singleton,
      List.map_singleton, mislabelledWithin?_concat]
    rw [List.map_append, List.append_assoc] at h
    obtain ⟨m, hm, heq⟩ | ⟨hnone, a₁, below, heq, hfits, htries, hkeeps⟩ :=
      hgrows (s, c, r) (by simp) a _ _ _ _ _ ((placed.map pending).reverse ++ stack) h.focus
    · exact Or.inl ⟨m, by rw [hm]; rfl, heq⟩
    · have h₁ : a₁.Fits label parent (.node slot ids (placed.map sprout ++
          (c, .node s (Trie.distinctIds r.ids) below) :: done)) others := h.replace rfl hfits hkeeps
      obtain ⟨m, hm, heq'⟩ | ⟨hnone', a', kids, heq', hfits', htries', hkeeps'⟩ :=
        ih _ (fun x hx => hgrows x (List.mem_append_left _ hx)) h₁
      · exact Or.inl ⟨m, by rw [hnone, hm]; rfl, heq.trans heq'⟩
      · refine Or.inr ⟨by rw [hnone, hnone']; rfl, a',
          kids ++ [(c, .node s (Trie.distinctIds r.ids) below)], heq.trans heq', ?_, ?_,
          hkeeps.of_context.trans hkeeps'⟩
        · rwa [List.append_assoc]
        · rw [triesBelow_append, htries', triesBelow, triesBelow, trie, htries, stripAll_append,
            stripAll, stripAll, strip_eq]

theorem grows {r : Record} (hr : r.Ordered) : Grows r := by
  induction r using Record.induction with
  | node label' ids' kids ih =>
    obtain ⟨hasc, hwithin⟩ := hr
    intro a label parent slot ids others stack h
    rw [mislabelledBelow?, Record.children, grow?_cons]
    obtain ⟨m, hm, heq⟩ | ⟨hnone, a₁, placed, hmap, heq, hfits₁, hkeeps₁⟩ :=
      attachAll?_eq kids [] h hasc stack
    · rw [List.map_nil, List.reverse_nil, List.nil_append] at heq
      exact Or.inl ⟨m, by rw [hm]; rfl, by rw [heq]⟩
    · rw [List.map_nil, List.reverse_nil, List.nil_append] at heq
      rw [List.map_nil, List.nil_append] at hmap
      have hgrows : ∀ x ∈ placed, Grows x.2.2 := by
        intro x hx
        have hx' : x.2 ∈ kids := hmap ▸ List.mem_map_of_mem hx
        exact ih x.2 hx' (hwithin x.2 hx')
      rw [← List.append_nil (placed.map sprout)] at hfits₁
      rw [heq, hnone, ← hmap]
      obtain ⟨m, hm, heq'⟩ | ⟨hnone', a', kids', heq', hfits', htries, hkeeps'⟩ :=
        growAll placed [] hgrows hfits₁ stack
      · exact Or.inl ⟨m, hm, heq'⟩
      · rw [List.append_nil] at hfits'
        exact Or.inr ⟨hnone', a', kids', heq', hfits', htries, hkeeps₁.trans hkeeps'⟩

/-! ## The index of a record, a text or a value -/

/-- A result in the array is the same fault as a result without it, or the same index. It is there in
any case. -/
def Agrees {ε : Type} (outcome : Option (Except ε Arena)) (result : Except ε Trie) : Prop :=
  match result with
  | .error e => outcome = some (.error e)
  | .ok t => ∃ a, outcome = some (.ok a) ∧ a.Represents t

/-- **The loop over a record** makes what the recursion makes. -/
theorem agrees_toTrie {r : Record} (hr : r.Ordered) : Agrees (ofRecord? r) r.toTrie := by
  obtain ⟨label, ids, kids⟩ := r
  cases label with
  | some c => rfl
  | none =>
    have hempty : empty.Fits none none (.node root [] []) [] := ⟨.node rfl nofun, by decide⟩
    obtain ⟨a₁, hmodify, hfits₁, -⟩ := hempty.modifyIds fun _ => []
    obtain ⟨a₂, hadd, hfits₂, -⟩ := exists_addIds ids hfits₁
    have hset : empty.setRootIds? ids = some a₂ := by
      rw [setRootIds?, hmodify]
      exact hadd
    rw [toTrie, ofRecord?, hset, Option.bind_eq_bind, Option.bind_some]
    obtain ⟨m, hm, heq⟩ | ⟨hnone, a, kids', heq, hfits, htries, -⟩ :=
      grows hr a₂ none none root _ [] [] hfits₂
    · rw [Record.label, hm]
      exact heq
    · rw [Record.label, hnone]
      refine ⟨a, heq.trans (grow?_nil a), _, ⟨hfits, rfl⟩, ?_⟩
      rw [trie, htries, strip]
      rfl

theorem agrees_ofRecord {r : Record} (hr : r.Ordered) :
    Agrees ((ofRecord? r).map fun outcome => outcome.mapError .mislabelled) (Snapshot.ofRecord r) := by
  have h := agrees_toTrie hr
  rw [Snapshot.ofRecord]
  cases htrie : r.toTrie with
  | error m =>
    rw [htrie, Agrees] at h
    rw [h]
    rfl
  | ok t =>
    rw [htrie, Agrees] at h
    obtain ⟨a, heq, ha⟩ := h
    exact ⟨a, by rw [heq]; rfl, ha⟩

/-- A text makes the same index, or is refused for the same fault. -/
theorem agrees_ofText (text : String) : Agrees (ofText? text) (Snapshot.ofText text) := by
  rw [ofText?, Snapshot.ofText]
  cases hread : (Json.Document.ofText text.toList).read readRecord with
  | error fault => rfl
  | ok r =>
    rw [Json.Document.read] at hread
    obtain ⟨r', hr', hread⟩ := exists_of_bind_eq_ok hread
    split at hread
    · cases hread
    · cases hread
      exact agrees_ofRecord (ordered_readRecord _ _ hr')

/-- So does a JSON value. -/
theorem agrees_ofJson (v : Json) : Agrees (ofJson? v) (Snapshot.ofJson v) := by
  rw [ofJson?, Snapshot.ofJson]
  cases hread : readRecord (.ofJson v) with
  | error fault => rfl
  | ok r => exact agrees_ofRecord (ordered_readRecord _ _ hread)

/-- What the array holds after an accepted record, text or value. -/
theorem Agrees.exists_of_eq_ok {ε : Type} {outcome : Option (Except ε Arena)}
    {result : Except ε Trie} (h : Agrees outcome result) {a : Arena} (ha : outcome = some (.ok a)) :
    ∃ t, result = .ok t ∧ a.Represents t := by
  cases result with
  | error e => rw [Agrees, ha] at h; cases h
  | ok t =>
    obtain ⟨a', heq, ha'⟩ := h
    rw [ha] at heq
    cases heq
    exact ⟨t, rfl, ha'⟩

end Concordance.Arena
