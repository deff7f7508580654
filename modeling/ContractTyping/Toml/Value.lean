import ContractTyping.Json.Basic

/-!
Values of a TOML document. Floats are told apart and not kept, since no setting holds one; a
date-time is kept as its text.
-/

namespace ContractTyping.Toml

inductive Value where
  | string (value : String)
  | integer (value : Int)
  | float
  | boolean (value : Bool)
  | moment (text : String)
  | array (items : List Value)
  | table (entries : List (String × Value))
  deriving Repr

namespace Value

instance : Inhabited Value := ⟨.table []⟩

/-- The one key of a date-time that is read as a table. -/
def momentKey : String := "$__toml_private_datetime"

mutual

/-- The JSON form in which types are read. Numbers, which no type contains, keep no value. -/
def toJson : Value → Json
  | string s => .str s
  | integer _ => .nat 0
  | float => .nat 0
  | boolean b => .bool b
  | moment text => .obj [(momentKey, .str text)]
  | array items => .array (itemsToJson items)
  | table entries => .object (entriesToJson entries)

def itemsToJson : List Value → List Json
  | [] => []
  | v :: vs => v.toJson :: itemsToJson vs

def entriesToJson : List (String × Value) → List (Spelling × Json)
  | [] => []
  | (k, v) :: rest => (some k, v.toJson) :: entriesToJson rest

end

end Value

end ContractTyping.Toml
