import Concordance.Proofs.Query.Grammar
import Mathlib.Data.List.Infix

/-!
# Parentheses that belong together

The parentheses of some tokens by counting alone, without the reader. `Covered` says that every
closing parenthesis has an opening one before it, `Balanced` that each has its partner, and
`HasGroup` that some tokens stand between two partners. `Contents` says what stands directly between
them: words, connectives and groups, where the groups that come to nothing are left out.

Balanced tokens have contents (`Balanced.exists_contents`). Tokens that are only covered are cut at
the opening parentheses which have no partner, and between two cuts they have contents
(`Covered.exists_nested`).
-/

namespace Concordance.Query

/-- No beginning of the tokens has more closing parentheses than opening ones. -/
def Covered (ts : List Token) : Prop :=
  ∀ read, read <+: ts → read.count .closing ≤ read.count .opening

/-- Every parenthesis has its partner. -/
structure Balanced (ts : List Token) : Prop where
  covered : Covered ts
  count_eq : ts.count .closing = ts.count .opening

/-- Some tokens stand between a parenthesis and its partner. -/
def HasGroup (ts inner : List Token) : Prop :=
  ∃ before after, ts = before ++ .opening :: (inner ++ .closing :: after) ∧ Balanced inner

/-- What stands directly on a level: a word, a connective, or a group with the tokens inside it. -/
inductive Item where
  | word (w : String)
  | connective (op : Connective)
  | group (inner : List Token)
  deriving DecidableEq, Repr, Inhabited

def Item.tokens : Item → List Token
  | word w => [.word w]
  | connective op => [.connective op]
  | group inner => .opening :: inner ++ [.closing]

/-- What stands directly on a level, apart from the groups that come to nothing. -/
inductive Contents : List Token → List Item → Prop where
  | nil : Contents [] []
  | word (w : String) {rest : List Token} {items : List Item} (h : Contents rest items) :
      Contents (.word w :: rest) (.word w :: items)
  | connective (op : Connective) {rest : List Token} {items : List Item}
      (h : Contents rest items) : Contents (.connective op :: rest) (.connective op :: items)
  | gap {inner rest : List Token} {items : List Item} (hinner : Gap inner)
      (h : Contents rest items) : Contents (.opening :: inner ++ .closing :: rest) items
  | group {inner rest : List Token} {items : List Item} (hinner : Balanced inner)
      (hne : ¬Gap inner) (h : Contents rest items) :
      Contents (.opening :: inner ++ .closing :: rest) (.group inner :: items)

/-! ## Counting parentheses -/

theorem Covered.of_prefix {read ts : List Token} (h : Covered ts) (hread : read <+: ts) :
    Covered read :=
  fun earlier hearlier => h earlier (hearlier.trans hread)

theorem Covered.count_le {ts : List Token} (h : Covered ts) :
    ts.count .closing ≤ ts.count .opening :=
  h ts (List.prefix_refl ts)

/-- One more token keeps the tokens covered, unless it is a closing parenthesis too many. -/
theorem Covered.concat {ts : List Token} (h : Covered ts) {t : Token}
    (ht : (ts ++ [t]).count .closing ≤ (ts ++ [t]).count .opening) : Covered (ts ++ [t]) := by
  intro read hread
  rcases List.prefix_concat_iff.mp hread with rfl | hread
  · exact ht
  · exact h read hread

theorem Covered.append {ts us : List Token} (h : Covered ts) (hus : Covered us) :
    Covered (ts ++ us) := by
  rintro read ⟨rest, hrest⟩
  rcases List.append_eq_append_iff.mp hrest with ⟨more, rfl, -⟩ | ⟨more, rfl, hmore⟩
  · exact h read (List.prefix_append read more)
  · have hle := hus more ⟨rest, hmore.symm⟩
    have hts := h.count_le
    rw [List.count_append, List.count_append]
    omega

theorem Balanced.nil : Balanced [] := by
  refine ⟨fun read hread => ?_, rfl⟩
  rw [List.prefix_nil.mp hread]
  exact Nat.le_refl 0

/-- A token that is no parenthesis is put in front. -/
theorem Balanced.cons {t : Token} (hopening : t ≠ .opening) (hclosing : t ≠ .closing)
    {rest : List Token} (h : Balanced rest) : Balanced (t :: rest) := by
  have hcount : ∀ ts : List Token, (t :: ts).count .closing = ts.count .closing ∧
      (t :: ts).count .opening = ts.count .opening := fun ts =>
    ⟨List.count_cons_of_ne hclosing, List.count_cons_of_ne hopening⟩
  refine ⟨fun read hread => ?_, by rw [(hcount rest).1, (hcount rest).2, h.count_eq]⟩
  rcases List.prefix_cons_iff.mp hread with rfl | ⟨later, rfl, hlater⟩
  · exact Nat.le_refl 0
  · rw [(hcount later).1, (hcount later).2]
    exact h.covered later hlater

/-- A group is put in front. -/
theorem Balanced.group {inner rest : List Token} (hinner : Balanced inner)
    (h : Balanced rest) : Balanced (.opening :: inner ++ .closing :: rest) := by
  obtain ⟨hcovered, hcount⟩ := hinner
  have hrest := h.count_eq
  refine ⟨fun read hread => ?_, by simp; omega⟩
  rw [List.cons_append] at hread
  rcases List.prefix_cons_iff.mp hread with rfl | ⟨start, rfl, later, hlater⟩
  · exact Nat.le_refl 0
  -- The beginning ends inside the group, or it holds the group and goes on after it.
  rcases List.append_eq_append_iff.mp hlater with ⟨more, rfl, -⟩ | ⟨more, rfl, hmore⟩
  · have hle := hcovered start (List.prefix_append start more)
    simp
    omega
  · have hprefix : more <+: .closing :: rest := ⟨later, hmore.symm⟩
    rcases List.prefix_cons_iff.mp hprefix with rfl | ⟨after, rfl, hafter⟩
    · simp
      omega
    · have hle := h.covered after hafter
      simp
      omega

theorem Gap.balanced {gap : List Token} (h : Gap gap) : Balanced gap := by
  induction h with
  | nil => exact .nil
  | cons _ _ hinner hrest => exact hinner.group hrest

theorem Contents.balanced {ts : List Token} {items : List Item} (h : Contents ts items) :
    Balanced ts := by
  induction h with
  | nil => exact .nil
  | word w _ ih => exact ih.cons (by nofun) (by nofun)
  | connective op _ ih => exact ih.cons (by nofun) (by nofun)
  | gap hinner _ ih => exact hinner.balanced.group ih
  | group hinner _ _ ih => exact hinner.group ih

theorem Contents.append {ts us : List Token} {items items' : List Item} (h : Contents ts items)
    (h' : Contents us items') : Contents (ts ++ us) (items ++ items') := by
  induction h with
  | nil => exact h'
  | word w _ ih => exact .word w ih
  | connective op _ ih => exact .connective op ih
  | gap hinner _ ih =>
    rw [List.append_assoc, List.cons_append]
    exact .gap hinner ih
  | group hinner hne _ ih =>
    rw [List.append_assoc, List.cons_append]
    exact .group hinner hne ih

/-- Balanced tokens in parentheses are a gap or a group. -/
theorem Balanced.exists_contents_group {inner : List Token} (h : Balanced inner) :
    ∃ items, Contents (.opening :: inner ++ [.closing]) items := by
  by_cases hgap : Gap inner
  · exact ⟨[], .gap hgap .nil⟩
  · exact ⟨[.group inner], .group h hgap .nil⟩

/-! ## Cutting at the parentheses without a partner -/

/-- Tokens in which a number of opening parentheses have no partner. What stands between two of
them, before the first and after the last has contents. -/
inductive Nested : Nat → List Token → Prop where
  | outermost {ts : List Token} {items : List Item} (h : Contents ts items) : Nested 0 ts
  | inside {n : Nat} {before inner : List Token} {items : List Item} (hbefore : Nested n before)
      (h : Contents inner items) : Nested (n + 1) (before ++ .opening :: inner)

/-- That number is the difference between the opening and the closing parentheses. -/
theorem Nested.count_eq {n : Nat} {ts : List Token} (h : Nested n ts) :
    ts.count .opening = ts.count .closing + n := by
  induction h with
  | outermost h => exact h.balanced.count_eq.symm
  | inside _ h ih =>
    have hinner := h.balanced.count_eq
    simp
    omega

theorem Nested.append {n : Nat} {ts us : List Token} {items : List Item} (h : Nested n ts)
    (hus : Contents us items) : Nested n (ts ++ us) := by
  cases h with
  | outermost h => exact .outermost (h.append hus)
  | inside hbefore h =>
    rw [List.append_assoc, List.cons_append]
    exact .inside hbefore (h.append hus)

/-- One more token, unless it is a closing parenthesis too many. -/
theorem Nested.concat {n : Nat} {ts : List Token} (h : Nested n ts) {t : Token}
    (ht : t = .closing → n ≠ 0) : ∃ m, Nested m (ts ++ [t]) := by
  cases t with
  | word w => exact ⟨n, h.append (.word w .nil)⟩
  | connective op => exact ⟨n, h.append (.connective op .nil)⟩
  | opening => exact ⟨n + 1, .inside h .nil⟩
  | closing =>
    cases h with
    | outermost _ => exact absurd rfl (ht rfl)
    | @inside n before inner _ hbefore h =>
      -- The last cut is closed, and what stood after it is a group of the level before.
      obtain ⟨items, hgroup⟩ := h.balanced.exists_contents_group
      rw [List.append_assoc]
      exact ⟨n, hbefore.append hgroup⟩

/-- Covered tokens are cut at the opening parentheses that have no partner. -/
theorem Covered.exists_nested {ts : List Token} (h : Covered ts) : ∃ n, Nested n ts := by
  induction ts using List.reverseRecOn with
  | nil => exact ⟨0, .outermost .nil⟩
  | append_singleton ts t ih =>
    obtain ⟨n, hnested⟩ := ih (h.of_prefix (List.prefix_append ts [t]))
    refine hnested.concat fun hclosing hzero => ?_
    have hcount := hnested.count_eq
    have hle := h.count_le
    subst hclosing hzero
    simp at hle
    omega

/-- Balanced tokens have contents. -/
theorem Balanced.exists_contents {ts : List Token} (h : Balanced ts) :
    ∃ items, Contents ts items := by
  obtain ⟨n, hnested⟩ := h.covered.exists_nested
  have hcount := hnested.count_eq
  cases hnested with
  | outermost h => exact ⟨_, h⟩
  | inside _ _ => have heq := h.count_eq; omega

/-- Tokens that are not covered have a first closing parenthesis without a partner. -/
theorem exists_of_not_covered {ts : List Token} (h : ¬Covered ts) :
    ∃ read rest, ts = read ++ .closing :: rest ∧ Balanced read := by
  induction ts using List.reverseRecOn with
  | nil => exact absurd Balanced.nil.covered h
  | append_singleton ts t ih =>
    by_cases hts : Covered ts
    · obtain ⟨n, hnested⟩ := hts.exists_nested
      have hcount := hnested.count_eq
      -- The last token is the one too many, so it closes and nothing was open.
      have hmore : (ts ++ [t]).count .opening < (ts ++ [t]).count .closing := by
        by_contra hle
        exact h (hts.concat (Nat.le_of_not_lt hle))
      have hclosing : t = .closing := by
        by_contra hne
        simp [List.count_singleton, hne] at hmore
        omega
      subst hclosing
      simp at hmore
      exact ⟨ts, [], rfl, hts, by omega⟩
    · obtain ⟨read, rest, rfl, hread⟩ := ih hts
      exact ⟨read, rest ++ [t], by simp, hread⟩

/-! ## Groups -/

theorem HasGroup.of_prefix {read ts inner : List Token} (h : HasGroup read inner)
    (hread : read <+: ts) : HasGroup ts inner := by
  obtain ⟨before, after, rfl, hinner⟩ := h
  obtain ⟨rest, rfl⟩ := hread
  exact ⟨before, after ++ rest, by simp, hinner⟩

theorem HasGroup.length_lt {ts inner : List Token} (h : HasGroup ts inner) :
    inner.length < ts.length := by
  obtain ⟨before, after, rfl, -⟩ := h
  simp
  omega

/-- A group after some tokens is a group of all of them. -/
theorem HasGroup.append_left {ts inner : List Token} (h : HasGroup ts inner)
    (before : List Token) : HasGroup (before ++ ts) inner := by
  obtain ⟨start, after, rfl, hinner⟩ := h
  exact ⟨before ++ start, after, by simp, hinner⟩

theorem HasGroup.inside {inner g : List Token} (h : HasGroup inner g) (before : List Token) :
    HasGroup (before ++ .opening :: inner) g := by
  have hinside := h.append_left (before ++ [.opening])
  simpa using hinside

/-- A group inside a group is a group of all tokens. -/
theorem HasGroup.trans {ts inner g : List Token} (h : HasGroup ts inner) (hg : HasGroup inner g) :
    HasGroup ts g := by
  obtain ⟨before, after, rfl, -⟩ := h
  exact (hg.of_prefix (List.prefix_append inner (.closing :: after))).inside before

/-- A group among the contents is one of the groups, and comes to something. -/
theorem Contents.hasGroup {ts : List Token} {items : List Item} (h : Contents ts items)
    {inner : List Token} (hmem : .group inner ∈ items) : HasGroup ts inner ∧ ¬Gap inner := by
  induction h with
  | nil => cases hmem
  | word w _ ih =>
    obtain ⟨hgroup, hne⟩ := ih (List.mem_of_ne_of_mem (by nofun) hmem)
    exact ⟨hgroup.append_left [.word w], hne⟩
  | connective op _ ih =>
    obtain ⟨hgroup, hne⟩ := ih (List.mem_of_ne_of_mem (by nofun) hmem)
    exact ⟨hgroup.append_left [.connective op], hne⟩
  | @gap gap rest _ _ _ ih =>
    obtain ⟨hgroup, hne⟩ := ih hmem
    have hlater := hgroup.append_left (.opening :: gap ++ [.closing])
    exact ⟨by simpa using hlater, hne⟩
  | @group first rest _ hinner hne _ ih =>
    rcases List.mem_cons.mp hmem with heq | hmem
    · cases heq
      exact ⟨⟨[], rest, rfl, hinner⟩, hne⟩
    · obtain ⟨hgroup, hne⟩ := ih hmem
      have hlater := hgroup.append_left (.opening :: first ++ [.closing])
      exact ⟨by simpa using hlater, hne⟩

/-- Tokens without contents are a gap. -/
theorem Contents.gap_of_nil {ts : List Token} (h : Contents ts []) : Gap ts := by
  generalize hitems : ([] : List Item) = items at h
  induction h with
  | nil => exact .nil
  | gap hinner _ ih => exact .cons hinner (ih hitems)
  | word _ _ _ | connective _ _ _ | group _ _ _ _ => cases hitems

/-- Before the first of the contents there is a gap. -/
theorem Contents.exists_first {ts : List Token} {item : Item} {items : List Item}
    (h : Contents ts (item :: items)) :
    ∃ gap rest, Gap gap ∧ ts = gap ++ item.tokens ++ rest ∧ Contents rest items := by
  generalize hitems : item :: items = all at h
  induction h with
  | nil => cases hitems
  | word w h _ =>
    cases hitems
    exact ⟨[], _, .nil, rfl, h⟩
  | connective op h _ =>
    cases hitems
    exact ⟨[], _, .nil, rfl, h⟩
  | @gap inner rest _ hinner _ ih =>
    obtain ⟨gap, later, hgap, rfl, h⟩ := ih hitems
    exact ⟨.opening :: inner ++ .closing :: gap, later, .cons hinner hgap, by simp, h⟩
  | group _ _ h _ =>
    cases hitems
    exact ⟨[], _, .nil, by simp [Item.tokens], h⟩

end Concordance.Query
