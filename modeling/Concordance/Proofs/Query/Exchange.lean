import Concordance.Proofs.Query.Grammar

/-!
# Exchanging parts of a query

Two runs of tokens are `Interchangeable` when the reader goes on after one as it does after the
other, on any levels. A gap is interchangeable with nothing, and two operands of one query are with
each other, since each leaves the same level behind. What the reader does before and after them has
no part in it, so they can be exchanged in any query, also in one that is refused, and it is refused
for the same reason (`parse_exchange`).
-/

namespace Concordance.Query

/-- The reader goes on in the same way after both. -/
def Interchangeable (us vs : List Token) : Prop :=
  ∀ outer level ts, parseFrom outer level (us ++ ts) = parseFrom outer level (vs ++ ts)

/-- What is read alike on all levels is read alike after any other tokens. -/
theorem parseFrom_congr {us vs : List Token}
    (h : ∀ outer level, parseFrom outer level us = parseFrom outer level vs) (before : List Token)
    (outer : List Level) (level : Level) :
    parseFrom outer level (before ++ us) = parseFrom outer level (before ++ vs) := by
  induction before generalizing outer level with
  | nil => exact h outer level
  | cons token before ih =>
    cases token with
    | opening => exact ih (level :: outer) []
    | connective op => exact ih outer (.connective op :: level)
    | word w => exact ih outer (.operand (.word w) :: level)
    | closing =>
      cases outer with
      | nil => rfl
      | cons next outer =>
        rw [List.cons_append, List.cons_append, parseFrom, parseFrom]
        -- If the level is refused, neither run comes to the tokens that differ.
        cases level.close with
        | error e => rfl
        | ok q? => exact ih outer (next.absorb q?)

/-- Interchangeable tokens can be exchanged anywhere in a query. -/
theorem Interchangeable.parse_eq {us vs : List Token} (h : Interchangeable us vs)
    (before after : List Token) :
    parse (before ++ us ++ after) = parse (before ++ vs ++ after) := by
  rw [List.append_assoc, List.append_assoc]
  exact parseFrom_congr (fun outer level => h outer level after) before [] []

theorem Gap.interchangeable {gap : List Token} (h : Gap gap) : Interchangeable gap [] :=
  fun outer level ts => parseFrom_gap h outer level ts

theorem Operand.interchangeable {q : Query} {us vs : List Token} (hu : Operand q us)
    (hv : Operand q vs) : Interchangeable us vs := by
  intro outer level ts
  rw [parseFrom_operand hu, parseFrom_operand hv]

/-- Tokens that are read as a query derive it. -/
theorem clause_of_parse {q : Query} {ts : List Token} (h : parse ts = .ok q) : Clause q ts := by
  have hnothing : Stacked [] [] [] := .outermost (.nil .nil)
  exact clause_of_parseFrom hnothing h

/-- Tokens that are read as a query are an operand of it when parentheses are put around them. -/
theorem operand_of_parse {q : Query} {ts : List Token} (h : parse ts = .ok q) :
    Operand q (.opening :: ts ++ [.closing]) :=
  .group (clause_of_parse h)

/-- **Exchange.** Wherever they stand, and whether or not the tokens around them make a query: an
empty pair of parentheses may be left out, two groups that are read as one query may be exchanged,
and parentheses may be put around a word. A query in parentheses is read as itself. -/
theorem parse_exchange (before after : List Token) :
    parse (before ++ [.opening, .closing] ++ after) = parse (before ++ after) ∧
    (∀ (us vs : List Token) (q : Query), parse us = .ok q → parse vs = .ok q →
      parse (before ++ [.opening] ++ us ++ [.closing] ++ after) =
        parse (before ++ [.opening] ++ vs ++ [.closing] ++ after)) ∧
    (∀ w : String, parse (before ++ [.word w] ++ after) =
      parse (before ++ [.opening, .word w, .closing] ++ after)) ∧
    ∀ (us : List Token) (q : Query), parse us = .ok q →
      parse ([.opening] ++ us ++ [.closing]) = .ok q := by
  refine ⟨?_, fun us vs q hu hv => ?_, fun w => ?_, fun us q h => ?_⟩
  · have hgap : Gap [.opening, .closing] := .cons .nil .nil
    have heq := hgap.interchangeable.parse_eq before after
    rwa [List.append_nil] at heq
  · have heq := ((operand_of_parse hu).interchangeable (operand_of_parse hv)).parse_eq before after
    simpa using heq
  · have hword : Clause (.word w) ([] ++ [.word w] ++ []) := .single .nil (.word w) .nil
    have hgroup : Operand (.word w) [.opening, .word w, .closing] := .group hword
    exact ((Operand.word w).interchangeable hgroup).parse_eq before after
  · have hsingle : Clause q ([] ++ (.opening :: us ++ [.closing]) ++ []) :=
      .single .nil (operand_of_parse h) .nil
    have hparse := parse_of_clause hsingle
    simpa using hparse

/-- Two groups with the same disjunction, and one of them on its own. Around them is a group of two
operands without a connective, which is refused before the parenthesis after it that has no
partner. -/
theorem parse_exchange_refused :
    let us : List Token := [.word "b", .connective .or, .word "c"]
    let vs : List Token := [.opening, .opening, .word "b", .closing, .connective .or, .opening,
      .closing, .word "c", .closing]
    let q : Query := .join .or (.word "b") (.word "c")
    let before : List Token := [.opening, .word "a"]
    let after : List Token := [.closing, .closing, .connective .and]
    parse us = .ok q ∧ parse vs = .ok q ∧
      parse (before ++ [.opening] ++ us ++ [.closing] ++ after) =
        parse (before ++ [.opening] ++ vs ++ [.closing] ++ after) ∧
      parse (before ++ [.opening] ++ vs ++ [.closing] ++ after) =
        .error (.invalidClause ["a", "(b | c)"]) ∧
      parse ([.opening] ++ vs ++ [.closing]) = .ok q := by
  intro us vs q before after
  have hu : parse us = .ok q := rfl
  have hv : parse vs = .ok q := rfl
  obtain ⟨_, hgroups, _, hsame⟩ := parse_exchange before after
  exact ⟨hu, hv, hgroups us vs q hu hv, rfl, hsame vs q hv⟩

end Concordance.Query
