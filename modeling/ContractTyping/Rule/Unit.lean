import ContractTyping.Rule.Basic

/-!
Source units and blocks.
-/

namespace ContractTyping.Rule

/-- The children of a unit. A trailing block of assumptions goes first: every other declaration may
refer to the names it binds. -/
def unitChildren (visit : Visitor) (children : List Node) : Pass (List Node) :=
  match children.getLast? with
  | none => pure []
  | some last =>
    if last.tag = .assumeDecls then do
      let last ← visit last (some .void)
      let others ← visitAll visit children.dropLast (some .void)
      return others ++ [last]
    else visitAll visit children (some .void)

/-- Hands over the gathered declarations and leaves none behind. -/
def takeDecls : Pass (List Node) := do
  let decls ← Pass.asks (·.ledger.decls)
  Pass.updateLedger ({ · with decls := [] })
  return decls

/-- The node that holds hoisted declarations. -/
def hoistedDecls (decls : List Node) : Node :=
  { tag := .typeDecls, children := decls, context := some "user", ty := some .void }

/-- A unit starts with an empty ledger and ends with the declarations hoisted to its top level. -/
def source : Rule := fun visit n expected => do
  Pass.updateLedger fun _ => {}
  Pass.emit (.enteredUnit n.children.length)
  let children ← unitChildren visit n.children
  let decls ← takeDecls
  Pass.emit (.hoisted decls.length)
  return { n with children := children ++ [hoistedDecls decls] }.adopt expected

def block : Rule := fun visit n expected => do
  let children ← visitAll visit n.children expected
  return { n with children }.adopt expected

/-- Titles and event declarations adopt the expected type as they stand. -/
def adopting : Rule := fun _ n expected => pure (n.adopt expected)

end ContractTyping.Rule
