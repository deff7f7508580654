import ContractTyping.Json.Fields
import ContractTyping.Ty

/-!
The JSON form of types. A name is a string, a list an array, a function an object with `params` and
perhaps `returns`, a structure an object with `name` and `fields`. An object is read as a function
if it can be, and as a structure otherwise; keys beyond these are ignored.
-/

namespace ContractTyping.Ty

mutual

def toJson : Ty → Json
  | unknown => .str unknownName
  | named name => .str name
  | list items => .array (listToJson items)
  | function params none => .obj [("params", .array (listToJson params))]
  | function params (some returns) =>
    .obj [("params", .array (listToJson params)), ("returns", returns.toJson)]
  | struct name fields => .obj [("name", .str name), ("fields", .array (listToJson fields))]

def listToJson : List Ty → List Json
  | [] => []
  | t :: ts => t.toJson :: listToJson ts

end

/-- A function from what stands under its keys. -/
def functionOf? (entries : Json.Entries) (params : Option (List Ty))
    (returns : Option (Option Ty)) : Option Ty :=
  if Json.distinct ["params", "returns"] entries then
    return function (← params) (← returns)
  else none

/-- A structure from what stands under its keys. -/
def structOf? (entries : Json.Entries) (fields : Option (List Ty)) : Option Ty :=
  if Json.distinct ["name", "fields"] entries then
    return struct (← Json.required "name" Json.string? entries) (← fields)
  else none

mutual

/-- Reads a value whose strings and numbers are known to be sound. -/
def decode? : Json → Option Ty
  | .string (some s) => some (ofName s)
  | .array items => (decodeList? items).map list
  | .object entries =>
    functionOf? entries (decodeListAt? "params" entries) (decodeReturns? entries)
      <|> structOf? entries (decodeListAt? "fields" entries)
  | _ => none

def decodeList? : List Json → Option (List Ty)
  | [] => some []
  | j :: js => do
    let t ← decode? j
    let ts ← decodeList? js
    return t :: ts

/-- The types in the array under a key. -/
def decodeListAt? (key : String) : Json.Entries → Option (List Ty)
  | [] => none
  | (k, .array items) :: rest => if k = some key then decodeList? items else decodeListAt? key rest
  | (k, _) :: rest => if k = some key then none else decodeListAt? key rest

/-- The type under `returns`; absent and null count alike. -/
def decodeReturns? : Json.Entries → Option (Option Ty)
  | [] => some none
  | (k, .null) :: rest => if k = some "returns" then some none else decodeReturns? rest
  | (k, j) :: rest => if k = some "returns" then (decode? j).map some else decodeReturns? rest

end

def ofJson? (j : Json) : Option Ty := if j.isFaithful then decode? j else none

end ContractTyping.Ty
