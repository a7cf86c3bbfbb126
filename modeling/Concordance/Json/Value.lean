/-!
# JSON values

A JSON value apart from its text. Numbers are kept as they are written, since `1`, `1.0` and
`1e0` are told apart where a document number is expected. The members of an object keep
their order.
-/

namespace Concordance

/-- A JSON value. -/
inductive Json where
  | null
  | bool (b : Bool)
  | number (literal : String)
  | text (s : String)
  | array (items : List Json)
  | object (members : List (String × Json))
  deriving Inhabited

namespace Json

/-- The value of a member of an object. -/
def member? (key : String) : Json → Option Json
  | object members => members.lookup key
  | _ => none

end Json

end Concordance
