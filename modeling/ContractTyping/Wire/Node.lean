import ContractTyping.Node.Basic
import ContractTyping.Wire.Diagnostic
import ContractTyping.Wire.Ty

/-!
The JSON form of trees: an object that leaves out whatever has its default. Reading also takes an
array of the fields in order, of which all but the first may be missing from the end.
-/

namespace ContractTyping.Node

def tag? (j : Json) : Option Tag := j.string?.map Tag.ofName

/-- An entry that is written only if there is a value. -/
def entryOf (key : String) (write : α → Json) (value : Option α) : List (String × Json) :=
  value.toList.map fun a => (key, write a)

mutual

def toJson : Node → Json
  | { tag, children, payload, ty, context, error, done, span } =>
    .obj ([("tag", .str tag.name)]
      ++ (if children.isEmpty then [] else [("children", .array (listToJson children))])
      ++ entryOf "payload" .str payload
      ++ entryOf "type" Ty.toJson ty
      ++ entryOf "context" .str context
      ++ entryOf "error" Diagnostic.toJson error
      ++ (if done then [("done", .bool true)] else [])
      ++ (if span.isDummy then [] else [("span", span.toJson)]))

def listToJson : List Node → List Json
  | [] => []
  | n :: ns => n.toJson :: listToJson ns

end

/-- The keys of a node, in the order of the array form. -/
def keys : List String := ["tag", "children", "payload", "type", "context", "error", "done", "span"]

/-- Reads all fields but the children, which are given. -/
def ofEntries? (entries : Json.Entries) (children : Option (List Node)) : Option Node :=
  if Json.distinct keys entries then
    return {
      tag := ← Json.required "tag" tag? entries
      children := ← children
      payload := ← Json.defaulted "payload" (Json.optional Json.string?) none entries
      ty := ← Json.defaulted "type" (Json.optional Ty.ofJson?) none entries
      context := ← Json.defaulted "context" (Json.optional Json.string?) none entries
      error := ← Json.defaulted "error" (Json.optional Diagnostic.ofJson?) none entries
      done := ← Json.defaulted "done" Json.bool? false entries
      span := ← Json.defaulted "span" Span.ofJson? {} entries }
  else none

/-- The array form as entries. -/
def entriesOfItems (items : List Json) : Json.Entries := (keys.map some).zip items

mutual

def ofJson? : Json → Option Node
  | .object entries => ofEntries? entries (childrenOf? entries)
  | .array items =>
    if items.length ≤ keys.length then ofEntries? (entriesOfItems items) (secondOf? items) else none
  | _ => none

def listOf? : List Json → Option (List Node)
  | [] => some []
  | j :: js => do
    let n ← ofJson? j
    let ns ← listOf? js
    return n :: ns

/-- The nodes under `children`, none if the key is absent. -/
def childrenOf? : Json.Entries → Option (List Node)
  | [] => some []
  | (k, .array items) :: rest => if k = some "children" then listOf? items else childrenOf? rest
  | (k, _) :: rest => if k = some "children" then none else childrenOf? rest

/-- The nodes in the second place of the array form. -/
def secondOf? : List Json → Option (List Node)
  | _ :: .array items :: _ => listOf? items
  | [_] => some []
  | _ => none

end

end ContractTyping.Node
