/-!
# Loops over a stack

A tree that is kept in an array is gone through by a loop: it takes an item from the top of a
stack, changes a state for it, and pushes further items.
-/

namespace Concordance

/-- A loop at work: what it has come to, and the items on its stack, from the top. -/
structure Worklist (σ : Type u) (α : Type v) where
  state : σ
  stack : List α

/-- Takes items from the stack until it is empty. `visit` changes the state for an item and gives the
items that are pushed then, in the order in which they are pushed. There is no result where `visit`
gives none, and none where the stack is never empty. -/
def Worklist.drain (w : Worklist σ α) (visit : σ → α → Option (σ × List α)) : Option σ :=
  match w.stack with
  | [] => some w.state
  | item :: stack =>
    match visit w.state item with
    | none => none
    | some (state, pushed) => Worklist.mk state (pushed.reverse ++ stack) |>.drain visit
partial_fixpoint

/-- The state after a loop that starts with some state and some items. -/
def drain (visit : σ → α → Option (σ × List α)) (state : σ) (stack : List α) : Option σ :=
  Worklist.drain ⟨state, stack⟩ visit

/-- The state after a loop that ends within some rounds. -/
def drainWithin (visit : σ → α → Option (σ × List α)) : Nat → σ → List α → Option σ
  | _, state, [] => some state
  | 0, _, _ :: _ => none
  | n + 1, state, item :: stack =>
    match visit state item with
    | none => none
    | some (state', pushed) => drainWithin visit n state' (pushed.reverse ++ stack)

section

variable {visit : σ → α → Option (σ × List α)} {state state' : σ} {item : α} {pushed stack : List α}

theorem drain_nil : drain visit state [] = some state := by
  rw [drain, Worklist.drain]

theorem drain_cons (h : visit state item = some (state', pushed)) :
    drain visit state (item :: stack) = drain visit state' (pushed.reverse ++ stack) := by
  rw [drain, Worklist.drain]
  simp only [h]
  rfl

/-- Where some rounds are enough, the loop gives what they give. -/
theorem drain_eq_of_within (n : Nat) (h : drainWithin visit n state stack = some state') :
    drain visit state stack = some state' := by
  induction n generalizing state stack with
  | zero =>
    cases stack with
    | nil => exact drain_nil.trans h
    | cons item stack => cases h
  | succ n ih =>
    cases stack with
    | nil => exact drain_nil.trans h
    | cons item stack =>
      rw [drainWithin] at h
      cases hvisit : visit state item with
      | none => rw [hvisit] at h; cases h
      | some r =>
        rw [hvisit] at h
        exact (drain_cons hvisit).trans (ih h)

end

end Concordance
