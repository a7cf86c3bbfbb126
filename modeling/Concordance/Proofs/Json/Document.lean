import Concordance.Json.Draft
import Concordance.Proofs.Json.Tokens

/-!
# The document of written JSON

The tokens of a value, in a state that awaits a value, lead to the state in which just this
value is complete (`ofTokens_spell`), whatever containers are open around it. So the document
of a written value is the value, and what follows it counts as trailing (`ofText_write`).

A value comes back from its document, and only from this one (`toJson?_ofJson`,
`eq_ofJson_of_toJson?`); so a text that is JSON is read as its value (`read_of_json?`).
-/

namespace Concordance.Json

namespace State

/-- The state takes the start of a value inside the open containers. -/
def Awaits (s : State) (outer : List Frame) : Prop :=
  ∀ t s', begin outer t = .ok s' → s.step t = .ok s'

theorem awaits_value (outer : List Frame) : (value outer).Awaits outer :=
  fun _ _ h => h

/-- Just after `[` any value may begin; `]` does not begin one. -/
theorem awaits_firstItem (outer : List Frame) : (firstItem outer).Awaits (.array [] :: outer) := by
  intro t s' h
  cases t with
  | arrayClose => cases h
  | objectOpen | objectClose | arrayOpen | comma | colon | null | bool | number | text | cutText
  | cutScalar | junk => exact h

end State

namespace Draft

mutual

/-- A value comes back from its draft. -/
theorem toJson?_ofJson : (v : Json) → (ofJson v).toJson? = some v
  | .null | .bool _ => by rw [ofJson, toJson?]
  | .number _ => by rw [ofJson, toJson?, String.ofList_toList]
  | .text _ => by rw [ofJson, toJson?, String.ofList_toList]
  | .array items => by
    rw [ofJson, toJson?, toItems?_ofItems items]
    rfl
  | .object members => by
    rw [ofJson, toJson?, toMembers?_ofMembers members]
    rfl

theorem toItems?_ofItems : (items : List Json) → toItems? (ofItems items) = some items
  | [] => by rw [ofItems, toItems?]
  | v :: items => by
    rw [ofItems, toItems?, toJson?_ofJson v, toItems?_ofItems items]
    rfl

theorem toMembers?_ofMembers : (members : List (String × Json)) →
    toMembers? (ofMembers members) = some members
  | [] => by rw [ofMembers, toMembers?]
  | (k, v) :: members => by
    rw [ofMembers, toMembers?, toJson?_ofJson v, toMembers?_ofMembers members,
      String.ofList_toList]
    rfl

end

mutual

/-- Only the document of a value is read as this value. -/
theorem eq_ofJson_of_toJson? : (d : Draft) → (v : Json) → d.toJson? = some v → d = ofJson v
  | .null, v, h | .bool _, v, h => by
    rw [toJson?] at h
    cases h
    rfl
  | .number literal, v, h => by
    rw [toJson?] at h
    cases h
    rw [ofJson, String.toList_ofList]
  | .text (some s), v, h => by
    rw [toJson?] at h
    cases h
    rw [ofJson, String.toList_ofList]
  | .array items none, v, h => by
    rw [toJson?] at h
    obtain ⟨vs, hvs, rfl⟩ := Option.map_eq_some_iff.mp h
    rw [eq_ofItems_of_toItems? items vs hvs, ofJson]
  | .object members none, v, h => by
    rw [toJson?] at h
    obtain ⟨ms, hms, rfl⟩ := Option.map_eq_some_iff.mp h
    rw [eq_ofMembers_of_toMembers? members ms hms, ofJson]
  -- What is not complete has no value.
  | .text none, v, h | .array _ (some _), v, h | .object _ (some _), v, h | .missing _, v, h => by
    rw [toJson?] at h
    cases h

theorem eq_ofItems_of_toItems? : (items : List Draft) → (vs : List Json) →
    toItems? items = some vs → items = ofItems vs
  | [], vs, h => by
    rw [toItems?] at h
    cases h
    rfl
  | d :: items, vs, h => by
    rw [toItems?] at h
    obtain ⟨v, hv, h⟩ := Option.bind_eq_some_iff.mp h
    obtain ⟨rest, hrest, h⟩ := Option.bind_eq_some_iff.mp h
    cases h
    rw [eq_ofJson_of_toJson? d v hv, eq_ofItems_of_toItems? items rest hrest, ofItems]

theorem eq_ofMembers_of_toMembers? : (members : List (Option (List Char) × Draft)) →
    (ms : List (String × Json)) → toMembers? members = some ms → members = ofMembers ms
  | [], ms, h => by
    rw [toMembers?] at h
    cases h
    rfl
  | (some k, d) :: members, ms, h => by
    rw [toMembers?] at h
    obtain ⟨v, hv, h⟩ := Option.bind_eq_some_iff.mp h
    obtain ⟨rest, hrest, h⟩ := Option.bind_eq_some_iff.mp h
    cases h
    rw [eq_ofJson_of_toJson? d v hv, eq_ofMembers_of_toMembers? members rest hrest, ofMembers,
      String.toList_ofList]
  | (none, _) :: _, ms, h => by
    rw [toMembers?] at h
    cases h

end

end Draft

namespace Document

/-- A token that the state takes. A complete document takes none. -/
theorem ofTokens_cons {s s' : State} {t : Token} (h : s.step t = .ok s') (ts : List Token) :
    ofTokens s (t :: ts) = ofTokens s' ts := by
  cases s with
  | done d => cases h
  | value | firstItem | afterItem | firstKey | key | colon | afterMember =>
    rw [ofTokens, h]
    exact nofun

mutual

/-- **The tokens of a value complete it**, and the open containers stay as they are. -/
theorem ofTokens_spell : (v : Json) → {s : State} → {outer : List Frame} → s.Awaits outer →
    (ts : List Token) →
    ofTokens s (v.spell ts) = ofTokens (State.complete (Draft.ofJson v) outer) ts
  | null, _, _, h, ts => by rw [spell, ofTokens_cons (h _ _ rfl), Draft.ofJson]
  | bool b, _, _, h, ts => by rw [spell, ofTokens_cons (h _ _ rfl), Draft.ofJson]
  | number literal, _, _, h, ts => by rw [spell, ofTokens_cons (h _ _ rfl), Draft.ofJson]
  | text s, _, _, h, ts => by rw [spell, ofTokens_cons (h _ _ rfl), Draft.ofJson]
  | array [], _, outer, h, ts => by
    have hclose : (State.firstItem outer).step .arrayClose =
        .ok (State.complete (.array [] none) outer) := rfl
    rw [spell, ofTokens_cons (h _ _ rfl), ofTokens_cons hclose, Draft.ofJson, Draft.ofItems]
  | array (v :: vs), _, outer, h, ts => by
    rw [spell, ofTokens_cons (h _ _ rfl), ofTokens_spell v (State.awaits_firstItem outer),
      State.complete, ofTokens_spellItems vs, Draft.ofJson, Draft.ofItems]
    rfl
  | object [], _, outer, h, ts => by
    have hclose : (State.firstKey outer).step .objectClose =
        .ok (State.complete (.object [] none) outer) := rfl
    rw [spell, ofTokens_cons (h _ _ rfl), ofTokens_cons hclose, Draft.ofJson, Draft.ofMembers]
  | object ((k, v) :: ms), _, outer, h, ts => by
    have hkey : (State.firstKey outer).step (.text (some k.toList)) =
        .ok (.colon outer [] (some k.toList)) := rfl
    have hcolon : (State.colon outer [] (some k.toList)).step .colon =
        .ok (.value (.object [] (some k.toList) :: outer)) := rfl
    rw [spell, ofTokens_cons (h _ _ rfl), ofTokens_cons hkey, ofTokens_cons hcolon,
      ofTokens_spell v (State.awaits_value _), State.complete, ofTokens_spellMembers ms,
      Draft.ofJson, Draft.ofMembers]
    rfl

/-- The items of an array after those that are complete, and its end. -/
theorem ofTokens_spellItems : (vs : List Json) → (outer : List Frame) → (items : List Draft) →
    (ts : List Token) →
    ofTokens (.afterItem outer items) (spellItems vs (.arrayClose :: ts)) =
      ofTokens (State.complete (.array (items.reverse ++ Draft.ofItems vs) none) outer) ts
  | [], outer, items, ts => by
    have hclose : (State.afterItem outer items).step .arrayClose =
        .ok (State.complete (.array items.reverse none) outer) := rfl
    rw [spellItems, ofTokens_cons hclose, Draft.ofItems, List.append_nil]
  | v :: vs, outer, items, ts => by
    have hcomma : (State.afterItem outer items).step .comma =
        .ok (.value (.array items :: outer)) := rfl
    rw [spellItems, ofTokens_cons hcomma, ofTokens_spell v (State.awaits_value _),
      State.complete, ofTokens_spellItems vs, Draft.ofItems, List.reverse_cons,
      List.append_assoc]
    rfl

/-- The members of an object after those that are complete, and its end. -/
theorem ofTokens_spellMembers : (ms : List (String × Json)) → (outer : List Frame) →
    (members : List (Option (List Char) × Draft)) → (ts : List Token) →
    ofTokens (.afterMember outer members) (spellMembers ms (.objectClose :: ts)) =
      ofTokens (State.complete (.object (members.reverse ++ Draft.ofMembers ms) none) outer) ts
  | [], outer, members, ts => by
    have hclose : (State.afterMember outer members).step .objectClose =
        .ok (State.complete (.object members.reverse none) outer) := rfl
    rw [spellMembers, ofTokens_cons hclose, Draft.ofMembers, List.append_nil]
  | (k, v) :: ms, outer, members, ts => by
    have hcomma : (State.afterMember outer members).step .comma = .ok (.key outer members) := rfl
    have hkey : (State.key outer members).step (.text (some k.toList)) =
        .ok (.colon outer members (some k.toList)) := rfl
    have hcolon : (State.colon outer members (some k.toList)).step .colon =
        .ok (.value (.object members (some k.toList) :: outer)) := rfl
    rw [spellMembers, ofTokens_cons hcomma, ofTokens_cons hkey, ofTokens_cons hcolon,
      ofTokens_spell v (State.awaits_value _), State.complete, ofTokens_spellMembers ms,
      Draft.ofMembers, List.reverse_cons, List.append_assoc]
    rfl

end

/-- **Writing, then reading.** The document of a written value is the value; it has something
trailing when the text after it holds a token. -/
theorem ofText_write {v : Json} (h : v.WellFormed) {rest : List Char}
    (hend : ∀ literal, v = number literal → EndsNumber rest) :
    ofText (v.write rest) = ⟨Draft.ofJson v, !(tokens rest).isEmpty⟩ := by
  rw [ofText, tokens, tokensFrom_write v h rest hend, ofTokens_spell v (State.awaits_value []),
    State.complete, ofTokens]
  rfl

/-- A document that is JSON is read as its value is. -/
theorem read_of_json? {α : Type} {d : Document} {v : Json} (h : d.json? = some v)
    (read : Draft → Except Fault α) : d.read read = read (.ofJson v) := by
  rw [json?] at h
  rw [Document.read]
  cases htrailing : d.trailing with
  | true =>
    rw [htrailing] at h
    cases h
  | false =>
    rw [htrailing] at h
    rw [Draft.eq_ofJson_of_toJson? _ _ h]
    cases read (.ofJson v) <;> rfl

/-- The compact text of a value is read as this value. -/
theorem json?_render {v : Json} (h : v.WellFormed) :
    (Document.ofText v.render.toList).json? = some v := by
  rw [Json.render, String.toList_ofList, ofText_write h fun _ _ => by trivial]
  exact Draft.toJson?_ofJson v

end Document

end Concordance.Json
