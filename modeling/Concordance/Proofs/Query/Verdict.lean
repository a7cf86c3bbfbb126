import Concordance.Proofs.Query.Nesting
import Mathlib.Data.List.Forall2

/-!
# Which mistake in a query is reported

Four things can be wrong with a query: a closing parenthesis has no partner, an opening one has
none, there is no operand, and a level is ill-shaped, its contents being something else than one
operand or two with a connective between them. Several can be wrong at once. What is reported is
said here by counting parentheses and looking into groups, level by level, and `parse_verdict` says
that the reader reports that.

The reader gets through all tokens that are covered and have well-shaped groups
(`Covered.exists_run`), and what it has then is on its innermost level (`Contents.parseFrom_eq`). So
only the first closing parenthesis at which this ends, or the end of the tokens, is left to look at.
-/

namespace Concordance.Query

/-- Whether an item can stand beside a connective. -/
def Item.IsOperand : Item → Prop
  | connective _ => False
  | _ => True

/-- Nothing, one operand, or two operands with a connective between them. -/
inductive Shaped : List Item → Prop where
  | empty : Shaped []
  | single {a : Item} (ha : a.IsOperand) : Shaped [a]
  | join {a b : Item} (op : Connective) (ha : a.IsOperand) (hb : b.IsOperand) :
      Shaped [a, .connective op, b]

/-- Tokens whose contents have the shape of a level. What is inside their groups plays no part. -/
def WellShaped (ts : List Token) : Prop :=
  ∃ items, Contents ts items ∧ Shaped items

/-- A group that is closed before any closing parenthesis that has no partner. -/
def ClosedInTime (ts inner : List Token) : Prop :=
  ∃ read, read <+: ts ∧ Covered read ∧ HasGroup read inner

/-- A closing parenthesis has no partner, and every group that is closed before it is
well-shaped. -/
def ClosesTooOften (ts : List Token) : Prop :=
  ¬Covered ts ∧ ∀ inner, ClosedInTime ts inner → WellShaped inner

/-- Only opening parentheses have no partner, and every group is well-shaped. -/
def LeavesOpen (ts : List Token) : Prop :=
  Covered ts ∧ ts.count .closing < ts.count .opening ∧
    ∀ inner, HasGroup ts inner → WellShaped inner

/-- There are only parentheses, and every one has its partner. -/
def OnlyParentheses (ts : List Token) : Prop :=
  Balanced ts ∧ ∀ t ∈ ts, t = .opening ∨ t = .closing

/-- A group is ill-shaped that is closed in time, or all groups are well-shaped and every
parenthesis has its partner, but the outermost level is ill-shaped. -/
def IllShaped (ts : List Token) : Prop :=
  (∃ inner, ClosedInTime ts inner ∧ ¬WellShaped inner) ∨
    (Balanced ts ∧ (∀ inner, HasGroup ts inner → WellShaped inner) ∧ ¬WellShaped ts)

/-- The ill-shaped level that ends before all others. -/
inductive FirstIllShaped : List Token → List Token → Prop where
  | group {before inner after : List Token} (covered : Covered before) (balanced : Balanced inner)
      (ill : ¬WellShaped inner)
      (earlier : ∀ g, HasGroup (before ++ .opening :: inner) g → WellShaped g) :
      FirstIllShaped (before ++ .opening :: (inner ++ .closing :: after)) inner
  | outermost {ts : List Token} (balanced : Balanced ts) (ill : ¬WellShaped ts)
      (earlier : ∀ g, HasGroup ts g → WellShaped g) : FirstIllShaped ts ts

/-- The part of a level that an item is: a word, a connective, or the query that a group derives. -/
inductive Item.Reads : Item → Part → Prop where
  | word (w : String) : Reads (.word w) (.operand (.word w))
  | connective (op : Connective) : Reads (.connective op) (.connective op)
  | group {q : Query} {inner : List Token} (h : Clause q inner) :
      Reads (.group inner) (.operand q)

/-- The texts of the parts that a level has. -/
def Fragments (level : List Token) (fragments : List String) : Prop :=
  ∃ items parts, Contents level items ∧ List.Forall₂ Item.Reads items parts ∧
    fragments = parts.map Part.text

/-! ## Levels that are read -/

/-- The contents of some tokens are put onto the level. -/
theorem Contents.parseFrom_eq {ts : List Token} {items : List Item} (h : Contents ts items)
    {parts : List Part} (hparts : List.Forall₂ Item.Reads items parts) (outer : List Level)
    (level : Level) (rest : List Token) :
    parseFrom outer level (ts ++ rest) = parseFrom outer (parts.reverse ++ level) rest := by
  induction h generalizing level parts with
  | nil =>
    cases hparts
    rfl
  | word w _ ih =>
    obtain ⟨_, later, ⟨⟩, hlater, rfl⟩ := List.forall₂_cons_left_iff.mp hparts
    rw [List.cons_append, parseFrom, ih hlater]
    simp
  | connective op _ ih =>
    obtain ⟨_, later, ⟨⟩, hlater, rfl⟩ := List.forall₂_cons_left_iff.mp hparts
    rw [List.cons_append, parseFrom_connective, ih hlater]
    simp
  | @gap inner after _ hinner _ ih =>
    have hgap : Gap (.opening :: inner ++ [.closing]) := .cons hinner .nil
    have hsplit : .opening :: inner ++ .closing :: after ++ rest =
        .opening :: inner ++ [.closing] ++ (after ++ rest) := by simp
    rw [hsplit, parseFrom_gap hgap, ih hparts]
  | @group inner after _ _ _ _ ih =>
    obtain ⟨_, later, hpart, hlater, rfl⟩ := List.forall₂_cons_left_iff.mp hparts
    cases hpart with
    | group hclause =>
      have hsplit : .opening :: inner ++ .closing :: after ++ rest =
          .opening :: inner ++ [.closing] ++ (after ++ rest) := by simp
      rw [hsplit, parseFrom_operand (.group hclause), ih hlater]
      simp

theorem Item.Reads.exists_operand {item : Item} {part : Part} (h : item.Reads part)
    (hoperand : item.IsOperand) : ∃ q, Operand q item.tokens := by
  cases h with
  | word w => exact ⟨.word w, .word w⟩
  | connective op => exact hoperand.elim
  | group h => exact ⟨_, .group h⟩

theorem Item.Reads.isOperand {item : Item} {q : Query} (h : item.Reads (.operand q)) :
    item.IsOperand := by
  cases h <;> trivial

theorem Item.Reads.eq_connective {item : Item} {op : Connective}
    (h : item.Reads (.connective op)) : item = .connective op := by
  cases h
  rfl

/-- A well-shaped level is a gap or derives a query. -/
theorem Contents.gap_or_clause {ts : List Token} {items : List Item} (h : Contents ts items)
    (hshaped : Shaped items) {parts : List Part}
    (hparts : List.Forall₂ Item.Reads items parts) : Gap ts ∨ ∃ q, Clause q ts := by
  cases hshaped with
  | empty => exact Or.inl h.gap_of_nil
  | single ha =>
    obtain ⟨before, after, hbefore, rfl, hafter⟩ := h.exists_first
    obtain _ | ⟨hpart, _⟩ := hparts
    obtain ⟨q, hq⟩ := hpart.exists_operand ha
    exact Or.inr ⟨q, .single hbefore hq hafter.gap_of_nil⟩
  | join op ha hb =>
    obtain ⟨before, later, hbefore, rfl, hlater⟩ := h.exists_first
    obtain ⟨between, last, hbetween, rfl, hlast⟩ := hlater.exists_first
    obtain ⟨between', after, hbetween', rfl, hafter⟩ := hlast.exists_first
    obtain _ | ⟨hleft, _ | ⟨_, _ | ⟨hright, _⟩⟩⟩ := hparts
    obtain ⟨l, hl⟩ := hleft.exists_operand ha
    obtain ⟨r, hr⟩ := hright.exists_operand hb
    have hjoin := Clause.join op hbefore hl hbetween hbetween' hr hafter.gap_of_nil
    exact Or.inr ⟨.join op l r, by simpa [Item.tokens] using hjoin⟩

/-- A level of any other shape is refused with the texts of its parts. -/
theorem close_of_not_shaped {items : List Item} {parts : List Part}
    (hparts : List.Forall₂ Item.Reads items parts) (hill : ¬Shaped items) :
    Level.close parts.reverse = .error (.invalidClause (parts.map Part.text)) := by
  unfold Level.close
  split
  · next hnone =>
    obtain rfl := List.reverse_eq_nil_iff.mp hnone
    cases hparts
    exact absurd .empty hill
  · next q hone =>
    obtain rfl : parts = [.operand q] := by simpa using congrArg List.reverse hone
    obtain _ | ⟨ha, _ | _⟩ := hparts
    exact absurd (.single ha.isOperand) hill
  · next r op l hthree =>
    obtain rfl : parts = [.operand l, .connective op, .operand r] := by
      simpa using congrArg List.reverse hthree
    obtain _ | ⟨ha, _ | ⟨hop, _ | ⟨hb, _ | _⟩⟩⟩ := hparts
    obtain rfl := hop.eq_connective
    exact absurd (.join op ha.isOperand hb.isOperand) hill
  · rw [List.reverse_reverse]

theorem exists_forall₂ {α β : Type} {R : α → β → Prop} {as : List α}
    (h : ∀ a ∈ as, ∃ b, R a b) : ∃ bs, List.Forall₂ R as bs := by
  induction as with
  | nil => exact ⟨[], .nil⟩
  | cons a as ih =>
    obtain ⟨hfirst, hlater⟩ := List.forall_mem_cons.mp h
    obtain ⟨b, hb⟩ := hfirst
    obtain ⟨bs, hbs⟩ := ih hlater
    exact ⟨b :: bs, .cons hb hbs⟩

/-- If all groups are well-shaped, every item is a part. -/
theorem Contents.exists_parts {ts : List Token} {items : List Item} (h : Contents ts items)
    (hgroups : ∀ inner, HasGroup ts inner → WellShaped inner) :
    ∃ parts, List.Forall₂ Item.Reads items parts := by
  refine exists_forall₂ fun item hitem => ?_
  cases item with
  | word w => exact ⟨_, .word w⟩
  | connective op => exact ⟨_, .connective op⟩
  | group inner =>
    obtain ⟨hgroup, hne⟩ := h.hasGroup hitem
    have hless := hgroup.length_lt
    obtain ⟨items', hcontents, hshaped⟩ := hgroups inner hgroup
    obtain ⟨parts, hparts⟩ := hcontents.exists_parts fun g hg => hgroups g (hgroup.trans hg)
    rcases hcontents.gap_or_clause hshaped hparts with hgap | ⟨q, hclause⟩
    · exact absurd hgap hne
    · exact ⟨_, .group hclause⟩
termination_by ts.length

/-! ## Runs -/

/-- **The reader gets through.** It reads tokens that are covered and have well-shaped groups to
their end, and is then inside one level for each parenthesis without a partner. -/
theorem Nested.exists_run {n : Nat} {read : List Token} (h : Nested n read)
    (hgroups : ∀ inner, HasGroup read inner → WellShaped inner) :
    ∃ (outer : List Level) (level : Level), outer.length = n ∧
      ∀ rest, parse (read ++ rest) = parseFrom outer level rest := by
  induction h with
  | outermost h =>
    obtain ⟨parts, hparts⟩ := h.exists_parts hgroups
    refine ⟨[], parts.reverse, rfl, fun rest => ?_⟩
    rw [parse, h.parseFrom_eq hparts, List.append_nil]
  | @inside n before inner items _ h ih =>
    obtain ⟨outer, level, hlength, hrun⟩ :=
      ih fun g hg => hgroups g (hg.of_prefix (List.prefix_append before (.opening :: inner)))
    obtain ⟨parts, hparts⟩ := h.exists_parts fun g hg => hgroups g (hg.inside before)
    refine ⟨level :: outer, parts.reverse, by simp [hlength], fun rest => ?_⟩
    rw [List.append_assoc, hrun, List.cons_append, parseFrom, h.parseFrom_eq hparts,
      List.append_nil]

theorem parse_of_closesTooOften {ts : List Token} (h : ClosesTooOften ts) :
    parse ts = .error .unexpectedClosing := by
  obtain ⟨hcovered, hgroups⟩ := h
  obtain ⟨read, rest, rfl, hread⟩ := exists_of_not_covered hcovered
  obtain ⟨items, hcontents⟩ := hread.exists_contents
  have hprefix : read <+: read ++ .closing :: rest := List.prefix_append _ _
  obtain ⟨outer, level, hlength, hrun⟩ := (Nested.outermost hcontents).exists_run
    fun g hg => hgroups g ⟨read, hprefix, hread.covered, hg⟩
  obtain rfl := List.length_eq_zero_iff.mp hlength
  rw [hrun]
  rfl

theorem parse_of_leavesOpen {ts : List Token} (h : LeavesOpen ts) :
    parse ts = .error .unclosedParenthesis := by
  obtain ⟨hcovered, hless, hgroups⟩ := h
  obtain ⟨n, hnested⟩ := hcovered.exists_nested
  have hcount := hnested.count_eq
  obtain ⟨outer, level, hlength, hrun⟩ := hnested.exists_run hgroups
  have hend := hrun []
  rw [List.append_nil] at hend
  rw [hend]
  cases outer with
  | nil => simp at hlength; omega
  | cons next outer => rfl

theorem Gap.onlyParentheses {ts : List Token} (h : Gap ts) : OnlyParentheses ts := by
  refine ⟨h.balanced, ?_⟩
  induction h with
  | nil => exact List.forall_mem_nil _
  | cons _ _ hinner hrest =>
    intro t ht
    simp only [List.cons_append, List.mem_cons, List.mem_append] at ht
    rcases ht with rfl | ht | rfl | ht
    · exact Or.inl rfl
    · exact hinner t ht
    · exact Or.inr rfl
    · exact hrest t ht

/-- Parentheses that have their partners, with nothing else, are a gap. -/
theorem OnlyParentheses.gap {ts : List Token} (h : OnlyParentheses ts) : Gap ts := by
  obtain ⟨hbalanced, honly⟩ := h
  obtain ⟨items, hcontents⟩ := hbalanced.exists_contents
  cases items with
  | nil => exact hcontents.gap_of_nil
  | cons item items =>
    -- There would be a first item, but no group comes to anything.
    obtain ⟨gap, rest, -, hts, -⟩ := hcontents.exists_first
    have hitem : ∀ t ∈ item.tokens, t = .opening ∨ t = .closing :=
      fun t ht => honly t (by rw [hts]; simp [ht])
    cases item with
    | word w => simp [Item.tokens] at hitem
    | connective op => simp [Item.tokens] at hitem
    | group inner =>
      obtain ⟨hgroup, hne⟩ := hcontents.hasGroup List.mem_cons_self
      have hless := hgroup.length_lt
      obtain ⟨_, _, _, hinner⟩ := hgroup
      have honly' : OnlyParentheses inner :=
        ⟨hinner, fun t ht => hitem t (by simp [Item.tokens, ht])⟩
      exact absurd honly'.gap hne
termination_by ts.length

theorem parse_of_onlyParentheses {ts : List Token} (h : OnlyParentheses ts) :
    parse ts = .error .emptyQuery := by
  have hend := parseFrom_gap h.gap [] [] []
  rw [List.append_nil] at hend
  rw [parse, hend]
  rfl

theorem parse_of_firstIllShaped {ts level : List Token} (h : FirstIllShaped ts level)
    {fragments : List String} (hfragments : Fragments level fragments) :
    parse ts = .error (.invalidClause fragments) := by
  obtain ⟨items, parts, hcontents, hparts, rfl⟩ := hfragments
  cases h with
  | @group before _ after covered balanced ill earlier =>
    have hill : ¬Shaped items := fun hshaped => ill ⟨items, hcontents, hshaped⟩
    obtain ⟨n, hnested⟩ := covered.exists_nested
    obtain ⟨outer, top, -, hrun⟩ := hnested.exists_run
      fun g hg => earlier g (hg.of_prefix (List.prefix_append before (.opening :: level)))
    rw [hrun, parseFrom, hcontents.parseFrom_eq hparts, List.append_nil, parseFrom,
      close_of_not_shaped hparts hill]
    rfl
  | outermost balanced ill earlier =>
    have hill : ¬Shaped items := fun hshaped => ill ⟨items, hcontents, hshaped⟩
    have hend := hcontents.parseFrom_eq hparts [] [] []
    rw [List.append_nil, List.append_nil] at hend
    rw [parse, hend, parseFrom, close_of_not_shaped hparts hill]
    rfl

/-! ## The verdict -/

theorem FirstIllShaped.exists_fragments {ts level : List Token} (h : FirstIllShaped ts level) :
    ∃ fragments, Fragments level fragments := by
  cases h with
  | @group before _ _ covered balanced ill earlier =>
    obtain ⟨items, hcontents⟩ := balanced.exists_contents
    obtain ⟨parts, hparts⟩ := hcontents.exists_parts fun g hg => earlier g (hg.inside before)
    exact ⟨_, items, parts, hcontents, hparts, rfl⟩
  | outermost balanced ill earlier =>
    obtain ⟨items, hcontents⟩ := balanced.exists_contents
    obtain ⟨parts, hparts⟩ := hcontents.exists_parts earlier
    exact ⟨_, items, parts, hcontents, hparts, rfl⟩

theorem FirstIllShaped.illShaped {ts level : List Token} (h : FirstIllShaped ts level) :
    IllShaped ts := by
  cases h with
  | @group before _ after covered balanced ill earlier =>
    have hgroup : Balanced (.opening :: level ++ [.closing]) := balanced.group .nil
    refine Or.inl ⟨level, ⟨before ++ (.opening :: level ++ [.closing]), ⟨after, by simp⟩,
      covered.append hgroup.covered, before, [], by simp, balanced⟩, ill⟩
  | outermost balanced ill earlier => exact Or.inr ⟨balanced, earlier, ill⟩

/-- Of the ill-shaped groups of covered tokens one ends first. -/
theorem exists_firstIllShaped_of_group {read g : List Token} (hcovered : Covered read)
    (hg : HasGroup read g) (hill : ¬WellShaped g) (rest : List Token) :
    ∃ level, FirstIllShaped (read ++ rest) level := by
  -- On the tokens from their end: the first one is found earlier, or it ends with the last token.
  induction read using List.reverseRecOn generalizing g rest with
  | nil => exact absurd hg.length_lt (Nat.not_lt_zero _)
  | append_singleton read t ih =>
    have hread : Covered read := hcovered.of_prefix (List.prefix_append read [t])
    by_cases hearlier : ∀ g, HasGroup read g → WellShaped g
    · obtain ⟨before, after, heq, hbalanced⟩ := hg
      rcases List.eq_nil_or_concat after with rfl | ⟨after, u, rfl⟩
      · have hsplit : read ++ [t] = (before ++ .opening :: g) ++ [.closing] := by simp [heq]
        obtain ⟨rfl, htoken⟩ := List.append_inj' hsplit rfl
        obtain rfl := List.singleton_inj.mp htoken
        refine ⟨g, ?_⟩
        have hfirst : FirstIllShaped (before ++ .opening :: (g ++ .closing :: rest)) g :=
          .group (hread.of_prefix (List.prefix_append _ _)) hbalanced hill hearlier
        simpa using hfirst
      · have hsplit : read ++ [t] = (before ++ .opening :: (g ++ .closing :: after)) ++ [u] := by
          simp [heq]
        obtain ⟨rfl, -⟩ := List.append_inj' hsplit rfl
        exact absurd (hearlier g ⟨before, after, rfl, hbalanced⟩) hill
    · obtain ⟨g', hg', hill'⟩ : ∃ g', HasGroup read g' ∧ ¬WellShaped g' := by
        simpa using hearlier
      obtain ⟨level, hlevel⟩ := ih hread hg' hill' (t :: rest)
      exact ⟨level, by simpa using hlevel⟩

theorem IllShaped.exists_first {ts : List Token} (h : IllShaped ts) :
    ∃ level, FirstIllShaped ts level := by
  rcases h with ⟨inner, ⟨read, ⟨rest, rfl⟩, hread, hgroup⟩, hill⟩ | ⟨hbalanced, hgroups, hill⟩
  · exact exists_firstIllShaped_of_group hread hgroup hill rest
  · exact ⟨ts, .outermost hbalanced hill hgroups⟩

theorem parse_of_illShaped {ts : List Token} (h : IllShaped ts) :
    ∃ fragments, parse ts = .error (.invalidClause fragments) := by
  obtain ⟨level, hlevel⟩ := h.exists_first
  obtain ⟨fragments, hfragments⟩ := hlevel.exists_fragments
  exact ⟨fragments, parse_of_firstIllShaped hlevel hfragments⟩

/-- What the reader says of some tokens, and why. -/
inductive Verdict (ts : List Token) : Except SearchError Query → Prop where
  | closesTooOften (h : ClosesTooOften ts) : Verdict ts (.error .unexpectedClosing)
  | leavesOpen (h : LeavesOpen ts) : Verdict ts (.error .unclosedParenthesis)
  | onlyParentheses (h : OnlyParentheses ts) : Verdict ts (.error .emptyQuery)
  | illShaped {level : List Token} {fragments : List String} (h : FirstIllShaped ts level)
      (hfragments : Fragments level fragments) : Verdict ts (.error (.invalidClause fragments))
  | query {q : Query} (h : Clause q ts) : Verdict ts (.ok q)

theorem verdict_of_firstIllShaped {ts level : List Token} (h : FirstIllShaped ts level) :
    Verdict ts (parse ts) := by
  obtain ⟨fragments, hfragments⟩ := h.exists_fragments
  rw [parse_of_firstIllShaped h hfragments]
  exact .illShaped h hfragments

theorem verdict_of_balanced {ts : List Token} (h : Balanced ts)
    (hgroups : ∀ inner, HasGroup ts inner → WellShaped inner) : Verdict ts (parse ts) := by
  by_cases hshaped : WellShaped ts
  · obtain ⟨items, hcontents, hshape⟩ := hshaped
    obtain ⟨parts, hparts⟩ := hcontents.exists_parts hgroups
    rcases hcontents.gap_or_clause hshape hparts with hgap | ⟨q, hclause⟩
    · rw [parse_of_onlyParentheses hgap.onlyParentheses]
      exact .onlyParentheses hgap.onlyParentheses
    · rw [parse_of_clause hclause]
      exact .query hclause
  · exact verdict_of_firstIllShaped (.outermost h hshaped hgroups)

/-- The reader has a reason for what it says. -/
theorem verdict_parse (ts : List Token) : Verdict ts (parse ts) := by
  by_cases htime : ∀ inner, ClosedInTime ts inner → WellShaped inner
  · by_cases hcovered : Covered ts
    · -- No parenthesis is closed too often, so every group is closed in time.
      have hgroups : ∀ inner, HasGroup ts inner → WellShaped inner :=
        fun inner hinner => htime inner ⟨ts, List.prefix_refl ts, hcovered, hinner⟩
      rcases Nat.lt_or_eq_of_le hcovered.count_le with hless | heq
      · have hopen : LeavesOpen ts := ⟨hcovered, hless, hgroups⟩
        rw [parse_of_leavesOpen hopen]
        exact .leavesOpen hopen
      · exact verdict_of_balanced ⟨hcovered, heq⟩ hgroups
    · have hclosing : ClosesTooOften ts := ⟨hcovered, htime⟩
      rw [parse_of_closesTooOften hclosing]
      exact .closesTooOften hclosing
  · obtain ⟨inner, hinner, hill⟩ : ∃ inner, ClosedInTime ts inner ∧ ¬WellShaped inner := by
      simpa using htime
    obtain ⟨level, hlevel⟩ := IllShaped.exists_first (Or.inl ⟨inner, hinner, hill⟩)
    exact verdict_of_firstIllShaped hlevel

/-- **The verdict.** For each thing that the reader can say of some tokens, when it says it. The
fragments of a refused level are those of the ill-shaped level that ends first. -/
theorem parse_verdict (ts : List Token) :
    (parse ts = .error .unexpectedClosing ↔ ClosesTooOften ts) ∧
    (parse ts = .error .unclosedParenthesis ↔ LeavesOpen ts) ∧
    (parse ts = .error .emptyQuery ↔ OnlyParentheses ts) ∧
    ((∃ fragments, parse ts = .error (.invalidClause fragments)) ↔ IllShaped ts) ∧
    (∀ fragments, parse ts = .error (.invalidClause fragments) ↔
      ∃ level, FirstIllShaped ts level ∧ Fragments level fragments) ∧
    ((∃ q, parse ts = .ok q) ↔
      ¬(ClosesTooOften ts ∨ LeavesOpen ts ∨ OnlyParentheses ts ∨ IllShaped ts)) := by
  have hv := verdict_parse ts
  refine ⟨⟨fun h => ?_, parse_of_closesTooOften⟩, ⟨fun h => ?_, parse_of_leavesOpen⟩,
    ⟨fun h => ?_, parse_of_onlyParentheses⟩, ⟨fun ⟨fragments, h⟩ => ?_, parse_of_illShaped⟩,
    fun fragments => ⟨fun h => ?_, fun ⟨level, hlevel, h⟩ => parse_of_firstIllShaped hlevel h⟩,
    ⟨fun ⟨q, h⟩ hmistake => ?_, fun hnone => ?_⟩⟩
  · rw [h] at hv
    cases hv with
    | closesTooOften hcause => exact hcause
  · rw [h] at hv
    cases hv with
    | leavesOpen hcause => exact hcause
  · rw [h] at hv
    cases hv with
    | onlyParentheses hcause => exact hcause
  · rw [h] at hv
    cases hv with
    | illShaped hlevel _ => exact hlevel.illShaped
  · rw [h] at hv
    cases hv with
    | illShaped hlevel hfragments => exact ⟨_, hlevel, hfragments⟩
  · -- Each mistake has its error, and there is none.
    rcases hmistake with hcause | hcause | hcause | hcause
    · cases h.symm.trans (parse_of_closesTooOften hcause)
    · cases h.symm.trans (parse_of_leavesOpen hcause)
    · cases h.symm.trans (parse_of_onlyParentheses hcause)
    · obtain ⟨_, herror⟩ := parse_of_illShaped hcause
      cases h.symm.trans herror
  · cases hv' : parse ts with
    | ok q => exact ⟨q, rfl⟩
    | error e =>
      rw [hv'] at hv
      refine absurd ?_ hnone
      cases hv with
      | closesTooOften hcause => exact Or.inl hcause
      | leavesOpen hcause => exact Or.inr (Or.inl hcause)
      | onlyParentheses hcause => exact Or.inr (Or.inr (Or.inl hcause))
      | illShaped hlevel _ => exact Or.inr (Or.inr (Or.inr hlevel.illShaped))

/-- The group of two words ends before the group around it, which is ill-shaped too, and before the
parenthesis that has no partner. -/
example : parse [.opening, .opening, .word "a", .opening, .closing, .word "b", .closing,
    .connective .or, .closing, .closing] = .error (.invalidClause ["a", "b"]) := rfl

end Concordance.Query
