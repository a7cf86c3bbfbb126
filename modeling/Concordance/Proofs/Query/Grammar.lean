import Concordance.Query.Parser

/-!
# The grammar of queries

The queries that the reader accepts, as derivations. A clause is one operand or two operands
with a connective between them; an operand is a word or a clause in parentheses; and anywhere
in a clause there may be a gap, a run of parentheses with nothing in them but gaps.

`parse_eq_ok_iff` says that reading succeeds with a query exactly when the tokens derive it as
a clause. Each direction follows the stack of the reader:

* from a derivation to a run, a gap leaves the innermost level as it is, an operand adds itself
  to it, and a clause leaves a level that amounts to it (`parseFrom_gap`, `parseFrom_operand`,
  `parseFrom_clause`);
* from a run to a derivation, `Stacked outer level ts` says that the levels derive the tokens
  that have been read, and every token keeps it (`clause_of_parseFrom`).
-/

namespace Concordance.Query

/-- Parentheses with nothing in them, any number of them side by side and inside each other. -/
inductive Gap : List Token → Prop where
  | nil : Gap []
  | cons {inner rest : List Token} (hinner : Gap inner) (hrest : Gap rest) :
      Gap (.opening :: inner ++ .closing :: rest)

mutual

/-- A word, or a clause in parentheses. -/
inductive Operand : Query → List Token → Prop where
  | word (w : String) : Operand (.word w) [.word w]
  | group {q : Query} {ts : List Token} (h : Clause q ts) :
      Operand q (.opening :: ts ++ [.closing])

/-- One operand, or two with a connective between them, in gaps. -/
inductive Clause : Query → List Token → Prop where
  | single {q : Query} {before ts after : List Token}
      (hbefore : Gap before) (h : Operand q ts) (hafter : Gap after) :
      Clause q (before ++ ts ++ after)
  | join (op : Connective) {l r : Query} {before ls between between' rs after : List Token}
      (hbefore : Gap before) (hl : Operand l ls) (hbetween : Gap between)
      (hbetween' : Gap between') (hr : Operand r rs) (hafter : Gap after) :
      Clause (.join op l r)
        (before ++ ls ++ between ++ .connective op :: (between' ++ rs ++ after))

end

/-! ## From a derivation to a run -/

theorem parseFrom_connective (outer : List Level) (level : Level) (op : Connective)
    (ts : List Token) :
    parseFrom outer level (.connective op :: ts) = parseFrom outer (.connective op :: level) ts :=
  rfl

/-- A level inside another one that ends with a closing parenthesis. -/
theorem parseFrom_closing {level : Level} {q? : Option Query} (h : level.close = .ok q?)
    (outer : List Level) (next : Level) (ts : List Token) :
    parseFrom (next :: outer) level (.closing :: ts) = parseFrom outer (next.absorb q?) ts := by
  rw [parseFrom, h]
  rfl

/-- A gap leaves the level as it is. -/
theorem parseFrom_gap {gap : List Token} (h : Gap gap) (outer : List Level) (level : Level)
    (ts : List Token) : parseFrom outer level (gap ++ ts) = parseFrom outer level ts := by
  induction h generalizing outer level ts with
  | nil => rfl
  | cons hinner hrest ihinner ihrest =>
    -- The inner gap is read on a new level, which is still empty when it closes.
    rw [List.append_assoc, List.cons_append, List.cons_append, parseFrom, ihinner,
      parseFrom_closing rfl]
    exact ihrest outer level ts

mutual

/-- An operand adds itself to the level. -/
theorem parseFrom_operand {q : Query} {us : List Token} : Operand q us →
    (outer : List Level) → (level : Level) → (ts : List Token) →
    parseFrom outer level (us ++ ts) = parseFrom outer (.operand q :: level) ts
  | .word w, outer, level, ts => rfl
  | .group h, outer, level, ts => by
    obtain ⟨inner, hclose, hrun⟩ := parseFrom_clause h
    rw [List.append_assoc, List.cons_append, parseFrom, hrun, List.singleton_append,
      parseFrom_closing hclose]
    rfl

/-- A clause on a new level leaves parts that amount to it. -/
theorem parseFrom_clause {q : Query} {us : List Token} : Clause q us →
    ∃ level : Level, level.close = .ok (some q) ∧
      ∀ outer ts, parseFrom outer [] (us ++ ts) = parseFrom outer level ts
  | .single hbefore h hafter => by
    refine ⟨[.operand q], rfl, fun outer ts => ?_⟩
    rw [List.append_assoc, List.append_assoc, parseFrom_gap hbefore, parseFrom_operand h,
      parseFrom_gap hafter]
  | .join op hbefore hl hbetween hbetween' hr hafter => by
    refine ⟨[.operand _, .connective op, .operand _], rfl, fun outer ts => ?_⟩
    simp only [List.append_assoc, List.cons_append]
    rw [parseFrom_gap hbefore, parseFrom_operand hl, parseFrom_gap hbetween,
      parseFrom_connective, parseFrom_gap hbetween', parseFrom_operand hr, parseFrom_gap hafter]

end

/-- A clause is read as the query that it derives. -/
theorem parse_of_clause {q : Query} {ts : List Token} (h : Clause q ts) : parse ts = .ok q := by
  obtain ⟨level, hclose, hrun⟩ := parseFrom_clause h
  have hend : parseFrom [] [] ts = parseFrom [] level [] := by
    simpa using hrun [] []
  rw [parse, hend, parseFrom, hclose]
  rfl

/-! ## From a run to a derivation -/

theorem Gap.append {a b : List Token} (ha : Gap a) (hb : Gap b) : Gap (a ++ b) := by
  induction ha with
  | nil => exact hb
  | cons hinner _ _ ih =>
    rw [List.append_assoc, List.cons_append]
    exact .cons hinner ih

/-- The parts of a level, newest first, derive the tokens that were read on it. -/
inductive Spelled : Level → List Token → Prop where
  | nil {gap : List Token} (hgap : Gap gap) : Spelled [] gap
  | operand {level : Level} {ts us gap : List Token} {q : Query}
      (h : Spelled level ts) (hq : Operand q us) (hgap : Gap gap) :
      Spelled (.operand q :: level) (ts ++ us ++ gap)
  | connective {level : Level} {ts gap : List Token} {op : Connective}
      (h : Spelled level ts) (hgap : Gap gap) :
      Spelled (.connective op :: level) (ts ++ .connective op :: gap)

theorem Spelled.append_gap {level : Level} {ts gap : List Token} (h : Spelled level ts)
    (hgap : Gap gap) : Spelled level (ts ++ gap) := by
  cases h with
  | nil hgap' => exact .nil (hgap'.append hgap)
  | operand h hq hgap' =>
    rw [List.append_assoc]
    exact .operand h hq (hgap'.append hgap)
  | connective h hgap' =>
    rw [List.append_assoc, List.cons_append]
    exact .connective h (hgap'.append hgap)

/-- A level that amounts to nothing derives a gap. -/
theorem Spelled.gap {level : Level} {ts : List Token} (h : Spelled level ts)
    (hclose : level.close = .ok none) : Gap ts := by
  unfold Level.close at hclose
  split at hclose
  · cases h; assumption
  · cases hclose
  · cases hclose
  · cases hclose

/-- A level that amounts to a query derives a clause of it. -/
theorem Spelled.clause {level : Level} {ts : List Token} {q : Query} (h : Spelled level ts)
    (hclose : level.close = .ok (some q)) : Clause q ts := by
  unfold Level.close at hclose
  split at hclose
  · cases hclose
  · cases hclose
    -- One operand, and nothing but a gap before it.
    cases h with
    | operand h hq hgap =>
      cases h with
      | nil hbefore => exact .single hbefore hq hgap
  · next r op l =>
    cases hclose
    -- The right operand is the newest part, so the derivation comes apart from its end.
    cases h with
    | operand h hr hafter =>
      cases h with
      | connective h hbetween' =>
        cases h with
        | operand h hl hbetween =>
          cases h with
          | nil hbefore =>
            have hjoin := Clause.join op hbefore hl hbetween hbetween' hr hafter
            simpa using hjoin
  · cases hclose

/-- A level in parentheses becomes a part of the level around it, or a gap there. -/
theorem Spelled.absorb {next level : Level} {ts us : List Token} {q? : Option Query}
    (hnext : Spelled next ts) (h : Spelled level us) (hclose : level.close = .ok q?) :
    Spelled (next.absorb q?) (ts ++ (.opening :: us ++ [.closing])) := by
  cases q? with
  | none => exact hnext.append_gap (.cons (h.gap hclose) .nil)
  | some q =>
    rw [Level.absorb]
    have hgroup := Spelled.operand hnext (.group (h.clause hclose)) .nil
    simpa using hgroup

/-- The levels, the innermost first, derive the tokens that have been read. -/
inductive Stacked : List Level → Level → List Token → Prop where
  | outermost {level : Level} {ts : List Token} (h : Spelled level ts) : Stacked [] level ts
  | inside {outer : List Level} {next level : Level} {ts us : List Token}
      (hnext : Stacked outer next ts) (h : Spelled level us) :
      Stacked (next :: outer) level (ts ++ .opening :: us)

/-- A change of the innermost level that some more tokens make, in all levels. -/
theorem Stacked.append {outer : List Level} {level level' : Level} {ts us : List Token}
    (h : Stacked outer level ts)
    (hlevel : ∀ {vs}, Spelled level vs → Spelled level' (vs ++ us)) :
    Stacked outer level' (ts ++ us) := by
  cases h with
  | outermost h => exact .outermost (hlevel h)
  | inside hnext h =>
    rw [List.append_assoc, List.cons_append]
    exact .inside hnext (hlevel h)

/-- **The invariant of reading.** If the levels derive what has been read and the rest is read
as a query, then all tokens derive it. -/
theorem clause_of_parseFrom {q : Query} {ts : List Token} {outer : List Level} {level : Level}
    {read : List Token} (h : Stacked outer level read) (hrun : parseFrom outer level ts = .ok q) :
    Clause q (read ++ ts) := by
  -- On the tokens that are left, for any levels: each token keeps `Stacked`, or the run has failed.
  induction ts generalizing outer level read with
  | nil =>
    rw [List.append_nil]
    cases h with
    | inside _ _ => cases hrun
    | outermost h =>
      rw [parseFrom] at hrun
      cases hclose : level.close with
      | error e => rw [hclose] at hrun; cases hrun
      | ok q? =>
        rw [hclose] at hrun
        cases q? with
        | none => cases hrun
        | some q' =>
          cases hrun
          exact h.clause hclose
  | cons token ts ih =>
    have hshift : read ++ token :: ts = read ++ [token] ++ ts := by simp
    rw [hshift]
    cases token with
    | opening => exact ih (.inside h (.nil .nil)) hrun
    | connective op => exact ih (h.append fun hl => .connective hl .nil) hrun
    | word w =>
      refine ih (h.append fun hl => ?_) hrun
      have hword := Spelled.operand hl (.word w) .nil
      simpa using hword
    | closing =>
      cases h with
      | outermost _ => cases hrun
      | inside hnext h =>
        rw [parseFrom] at hrun
        cases hclose : level.close with
        | error e => rw [hclose] at hrun; cases hrun
        | ok q? =>
          rw [hclose] at hrun
          have hstack := hnext.append fun hl => hl.absorb h hclose
          have hclause := ih hstack hrun
          simpa using hclause

/-- **Reading decides the grammar.** `parse` accepts the tokens with a query exactly when they
derive it as a clause. -/
theorem parse_eq_ok_iff {ts : List Token} {q : Query} : parse ts = .ok q ↔ Clause q ts := by
  constructor
  · intro h
    have hclause := clause_of_parseFrom (.outermost (.nil .nil)) h
    rwa [List.nil_append] at hclause
  · exact parse_of_clause

end Concordance.Query
