import Concordance.Proofs.Json.Quotations

/-!
# The tokens of written JSON

What the printer writes is read token by token as it was meant. `Json.spell v rest` is the list
of tokens of a value before some others, laid out like `Json.write v rest`; `tokensFrom_write`
says that the tokens of the written text are these.

Only a number must not be followed by what goes on with it (`EndsNumber`); after a value inside
another one there is always a comma or a closing bracket.
-/

namespace Concordance.Json

/-- Every number in the value is a number literal. -/
inductive WellFormed : Json → Prop where
  | null : WellFormed null
  | bool (b : Bool) : WellFormed (bool b)
  | number {literal : String} (h : IsNumber literal.toList) : WellFormed (number literal)
  | text (s : String) : WellFormed (text s)
  | array {items : List Json} (h : ∀ v ∈ items, WellFormed v) : WellFormed (array items)
  | object {members : List (String × Json)} (h : ∀ m ∈ members, WellFormed m.2) :
      WellFormed (object members)

mutual

/-- The tokens of a value, before `rest`. -/
def spell : Json → List Token → List Token
  | null, rest => .null :: rest
  | bool b, rest => .bool b :: rest
  | number literal, rest => .number literal.toList :: rest
  | text s, rest => .text (some s.toList) :: rest
  | array [], rest => .arrayOpen :: .arrayClose :: rest
  | array (v :: vs), rest => .arrayOpen :: spell v (spellItems vs (.arrayClose :: rest))
  | object [], rest => .objectOpen :: .objectClose :: rest
  | object ((k, v) :: ms), rest =>
    .objectOpen :: .text (some k.toList) :: .colon ::
      spell v (spellMembers ms (.objectClose :: rest))

/-- The tokens of the items of an array after the first, before `rest`. -/
def spellItems : List Json → List Token → List Token
  | [], rest => rest
  | v :: vs, rest => .comma :: spell v (spellItems vs rest)

/-- The tokens of the members of an object after the first, before `rest`. -/
def spellMembers : List (String × Json) → List Token → List Token
  | [], rest => rest
  | (k, v) :: ms, rest =>
    .comma :: .text (some k.toList) :: .colon :: spell v (spellMembers ms rest)

end

/-- A sign between values is one token. -/
theorem tokensFrom_sign {c : Char} {t : Token} (h : Mode.start c = ([t], some .free))
    (cs : List Char) : tokensFrom .free (c :: cs) = t :: tokensFrom .free cs := by
  have hstep : Mode.free.step c = ([t], some .free) := h
  exact tokensFrom_token hstep cs

theorem tokensFrom_null (rest : List Char) :
    tokensFrom .free ("null".toList ++ rest) = .null :: tokensFrom .free rest :=
  rfl

theorem tokensFrom_true (rest : List Char) :
    tokensFrom .free ("true".toList ++ rest) = .bool true :: tokensFrom .free rest :=
  rfl

theorem tokensFrom_false (rest : List Char) :
    tokensFrom .free ("false".toList ++ rest) = .bool false :: tokensFrom .free rest :=
  rfl

/-- The signs that may follow a value inside another one. -/
theorem endsNumber_sign {c : Char} (h : c = ',' ∨ c = ']' ∨ c = '\x7d') (rest : List Char) :
    EndsNumber (c :: rest) := by
  rcases h with rfl | rfl | rfl <;> exact ⟨rfl, by decide, by decide, by decide⟩

theorem endsNumber_writeItems (vs : List Json) {rest : List Char} (h : EndsNumber rest) :
    EndsNumber (writeItems vs rest) := by
  cases vs with
  | nil => exact h
  | cons v vs => rw [writeItems]; exact endsNumber_sign (by simp) _

theorem endsNumber_writeMembers (ms : List (String × Json)) {rest : List Char}
    (h : EndsNumber rest) : EndsNumber (writeMembers ms rest) := by
  cases ms with
  | nil => exact h
  | cons m ms => rw [writeMembers]; exact endsNumber_sign (by simp) _

mutual

/-- **Writing, then reading the tokens.** The tokens of a written value are those of the value.
Only the end of a number is seen by what follows. -/
theorem tokensFrom_write : (v : Json) → v.WellFormed → (rest : List Char) →
    (∀ literal, v = number literal → EndsNumber rest) →
    tokensFrom .free (v.write rest) = v.spell (tokensFrom .free rest)
  | null, _, rest, _ => by rw [write, spell, tokensFrom_null]
  | bool true, _, rest, _ => by rw [write, spell, tokensFrom_true]
  | bool false, _, rest, _ => by rw [write, spell, tokensFrom_false]
  | number literal, h, rest, hend => by
    cases h with
    | number h => rw [write, spell, tokensFrom_number h (hend literal rfl)]
  | text s, _, rest, _ => by rw [write, spell, tokensFrom_writeText]
  | array [], _, rest, _ => by
    rw [write, spell, tokensFrom_sign rfl, tokensFrom_sign rfl]
  | array (v :: vs), h, rest, _ => by
    cases h with
    | array h =>
      have hclose : EndsNumber (']' :: rest) := endsNumber_sign (by simp) rest
      rw [write, spell, tokensFrom_sign rfl,
        tokensFrom_write v (h v List.mem_cons_self) _ fun _ _ => endsNumber_writeItems vs hclose,
        tokensFrom_writeItems vs (fun v hv => h v (List.mem_cons_of_mem _ hv)) _ hclose,
        tokensFrom_sign rfl]
  | object [], _, rest, _ => by
    rw [write, spell, tokensFrom_sign rfl, tokensFrom_sign rfl]
  | object ((k, v) :: ms), h, rest, _ => by
    cases h with
    | object h =>
      have hclose : EndsNumber ('\x7d' :: rest) := endsNumber_sign (by simp) rest
      rw [write, spell, tokensFrom_sign rfl, tokensFrom_writeText, tokensFrom_sign rfl,
        tokensFrom_write v (h (k, v) List.mem_cons_self) _
          fun _ _ => endsNumber_writeMembers ms hclose,
        tokensFrom_writeMembers ms (fun m hm => h m (List.mem_cons_of_mem _ hm)) _ hclose,
        tokensFrom_sign rfl]

theorem tokensFrom_writeItems : (vs : List Json) → (∀ v ∈ vs, v.WellFormed) →
    (rest : List Char) → EndsNumber rest →
    tokensFrom .free (writeItems vs rest) = spellItems vs (tokensFrom .free rest)
  | [], _, rest, _ => rfl
  | v :: vs, h, rest, hend => by
    rw [writeItems, spellItems, tokensFrom_sign rfl,
      tokensFrom_write v (h v List.mem_cons_self) _ fun _ _ => endsNumber_writeItems vs hend,
      tokensFrom_writeItems vs (fun v hv => h v (List.mem_cons_of_mem _ hv)) _ hend]

theorem tokensFrom_writeMembers : (ms : List (String × Json)) → (∀ m ∈ ms, m.2.WellFormed) →
    (rest : List Char) → EndsNumber rest →
    tokensFrom .free (writeMembers ms rest) = spellMembers ms (tokensFrom .free rest)
  | [], _, rest, _ => rfl
  | (k, v) :: ms, h, rest, hend => by
    rw [writeMembers, spellMembers, tokensFrom_sign rfl, tokensFrom_writeText,
      tokensFrom_sign rfl,
      tokensFrom_write v (h (k, v) List.mem_cons_self) _
        fun _ _ => endsNumber_writeMembers ms hend,
      tokensFrom_writeMembers ms (fun m hm => h m (List.mem_cons_of_mem _ hm)) _ hend]

end

end Concordance.Json
