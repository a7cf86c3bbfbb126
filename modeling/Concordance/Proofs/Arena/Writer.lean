import Concordance.Arena.Snapshot
import Concordance.Proofs.Arena.Plot
import Concordance.Proofs.Snapshot.Writer

/-!
# Writing snapshots from the array

The loop that writes a snapshot has steps on its stack: nodes, keys, and the brackets that close the
children of a node and the node. `Holds.writes` follows it through one plot: it writes the value of
the plot's record, whatever is on the stack below. The children of a node are followed from the second
on by `drain_writeMore`, since only the first key has no comma before it.
-/

namespace Concordance.Arena

open Plot Snapshot Snapshot.Record

variable {a : Arena} {label : Option Char} {parent : Option Slot} {p : Plot} {t : Trie}

/-- The steps for some children as they come up. -/
theorem reverse_childSteps (kids : List ((Char × Slot) × Nat)) :
    (childSteps kids).reverse = kids.flatMap fun e => [.key e.1.1 (e.2 == 0), .node e.1.2] := by
  rw [childSteps, List.reverse_flatMap, List.reverse_reverse]
  rfl

/-! ## Text before a rest -/

theorem writeLabel_append (label : Option Char) (rest : List Char) :
    writeLabel label rest = writeLabel label [] ++ rest := by
  rw [writeLabel_eq, writeLabel_eq, Json.write_append]

theorem writeIds_append (ids : List DocId) (rest : List Char) :
    writeIds ids rest = writeIds ids [] ++ rest := by
  rw [writeIds_eq, writeIds_eq, Json.write_append]

theorem writeTrie_append (label : Option Char) (t : Trie) (rest : List Char) :
    writeTrie label t rest = writeTrie label t [] ++ rest := by
  rw [writeTrie_eq, writeTrie_eq, Json.write_append]

theorem writeMoreChildren_append (kids : List (Char × Trie)) (rest : List Char) :
    writeMoreChildren kids rest = writeMoreChildren kids [] ++ rest := by
  rw [writeMoreChildren_eq, writeMoreChildren_eq, Json.writeMembers_append]

/-! ## The loop through a plot -/

/-- What the loop writes for a plot, for any text before it and any steps to come. -/
def Writes (a : Arena) (slot : Slot) (written : List Char) : Prop :=
  ∀ (text : List Char) (stack : List Step),
    drain a.writeVisit text (.node slot :: stack) = drain a.writeVisit (text ++ written) stack

theorem writeVisit_key (text : List Char) (c : Char) (first : Bool) :
    a.writeVisit text (.key c first) =
      some ((if first then text else text ++ [',']) ++ Json.writeText (String.singleton c) [] ++ [':'],
        []) :=
  rfl

/-- A key and the child under it. -/
theorem Writes.key {slot : Slot} {written : List Char} (h : a.Writes slot written) (c : Char)
    (first : Bool) (text : List Char) (stack : List Step) :
    drain a.writeVisit text (.key c first :: .node slot :: stack) =
      drain a.writeVisit ((if first then text else text ++ [',']) ++
        Json.writeText (String.singleton c) (':' :: written)) stack := by
  rw [drain_cons (writeVisit_key text c first), List.reverse_nil, List.nil_append, h,
    Json.writeText_append _ (':' :: written), List.append_assoc, List.append_assoc,
    List.singleton_append]

/-- The children after the first one. Only their places matter, and those are not the first. -/
theorem drain_writeMore {kids : List (Char × Plot)}
    (h : ∀ e ∈ kids, a.Writes e.2.slot (writeTrie (some e.1) e.2.trie [])) (n : Nat)
    (text : List Char) (stack : List Step) :
    drain a.writeVisit text ((childSteps ((links kids).zipIdx (n + 1))).reverse ++ stack) =
      drain a.writeVisit (text ++ writeMoreChildren (triesBelow kids) []) stack := by
  induction kids generalizing n text with
  | nil => simp [links, childSteps, triesBelow, writeMoreChildren]
  | cons head rest ih =>
    obtain ⟨c, p⟩ := head
    have hsteps : (childSteps ((links ((c, p) :: rest)).zipIdx (n + 1))).reverse =
        .key c false :: .node p.slot :: (childSteps ((links rest).zipIdx (n + 2))).reverse := by
      simp [reverse_childSteps, links, List.zipIdx_cons]
    rw [hsteps, List.cons_append, List.cons_append, (h (c, p) List.mem_cons_self).key,
      ih (fun e he => h e (List.mem_cons_of_mem _ he)), triesBelow, writeMoreChildren_cons,
      writeTrie_append _ _ (writeMoreChildren _ _), Json.writeText_append _ (':' :: writeTrie _ _ []),
      Json.writeText_append _ (':' :: (_ ++ _))]
    simp only [Bool.false_eq_true, if_false, List.append_assoc, List.cons_append, List.nil_append]

/-- The loop writes for a plot what the recursion writes for its trie. -/
theorem Holds.writes (h : a.Holds label parent p) : a.Writes p.slot (writeTrie label p.trie []) := by
  induction h with
  | @node label parent slot ids kids here within ih =>
    intro text stack
    rw [trie]
    cases kids with
    | nil =>
      have hvisit : a.writeVisit text (.node slot) =
          some (text ++ "\x7b\"char\":".toList ++ writeLabel label [] ++ ",\"doc_ids\":".toList ++
            writeIds ids [] ++ ['\x7d'], []) := by
        rw [writeVisit, here]
        rfl
      rw [Plot.slot, drain_cons hvisit, triesBelow, writeTrie_leaf,
        writeLabel_append _ (",\"doc_ids\":".toList ++ _), writeIds_append _ ['\x7d']]
      simp only [List.append_assoc, List.reverse_nil, List.nil_append]
    | cons head rest =>
      obtain ⟨c, child⟩ := head
      have hvisit : a.writeVisit text (.node slot) =
          some (text ++ "\x7b\"char\":".toList ++ writeLabel label [] ++ ",\"doc_ids\":".toList ++
            writeIds ids [] ++ ",\"children\":\x7b".toList,
            .close :: childSteps (links ((c, child) :: rest)).zipIdx) := by
        rw [writeVisit, here]
        rfl
      have hsteps : (Step.close :: childSteps (links ((c, child) :: rest)).zipIdx).reverse ++ stack =
          .key c true :: .node child.slot ::
            ((childSteps ((links rest).zipIdx (0 + 1))).reverse ++ .close :: stack) := by
        simp [reverse_childSteps, links, List.zipIdx_cons]
      have hclose : ∀ text, a.writeVisit text .close = some (text ++ ['\x7d', '\x7d'], []) :=
        fun _ => rfl
      rw [Plot.slot, drain_cons hvisit, hsteps, (ih (c, child) List.mem_cons_self).key,
        drain_writeMore fun e he => ih e (List.mem_cons_of_mem _ he), drain_cons (hclose _),
        triesBelow, writeTrie_inner, writeLabel_append _ (",\"doc_ids\":".toList ++ _),
        writeIds_append _ (",\"children\":\x7b".toList ++ _),
        Json.writeText_append _ (':' :: writeTrie _ _ (writeMoreChildren _ _)),
        writeTrie_append _ _ (writeMoreChildren _ _), writeMoreChildren_append _ ['\x7d', '\x7d'],
        Json.writeText_append _ (':' :: writeTrie _ _ [])]
      simp only [if_true, List.append_assoc, List.reverse_nil, List.nil_append, List.cons_append]

/-- The text that is written from the array is the one that is written from the trie. -/
theorem Represents.render?_eq (h : a.Represents t) : a.render? = some (Snapshot.render t) := by
  obtain ⟨p, ⟨hfits, hroot⟩, rfl⟩ := h
  rw [render?, ← hroot, hfits.holds.writes, drain_nil, List.nil_append, Snapshot.render]
  rfl

end Concordance.Arena
