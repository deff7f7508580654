import ContractTyping.Rule.Basic

/-!
Declarations of types, which are queued for the top level of the unit.
-/

namespace ContractTyping.Rule

/-- A structure is bound to its name, and a copy of the declaration is queued. -/
def structDefine : Rule := fun visit n expected =>
  match n.children with
  | name :: fields => do
    let fields ← visitAll visit fields expected
    Pass.bindName name.text (.struct name.text (Node.types fields))
    let decl := { n with children := name :: fields }.adopt expected
    Pass.emit (.queuedStruct name.text)
    Pass.updateLedger (·.addDecl decl)
    return decl
  | [] => pure (n.lacking 1)

/-- The name of the next enumeration. -/
def enumName (config : Config) (decls : List Node) : String :=
  config.enumStem ++ toString decls.length

/-- An enumeration without a name gets a generated one, and its definition is queued. -/
def enumType (config : Config) : Rule := fun visit n expected => do
  let children ← visitAll visit n.children expected
  let generated ← Pass.asks fun env => enumName config env.ledger.decls
  let name := (Node.leaf .text generated).withContext "name"
  let elements : Node := { tag := .enumElement, children, context := some "data" }
  let define : Node := { tag := .enumDefine, children := [elements, name], span := n.span }
  Pass.emit (.queuedEnum generated)
  Pass.updateLedger (·.addDecl (define.adopt expected))
  return { n with children := children ++ [name] }.adopt expected

end ContractTyping.Rule
