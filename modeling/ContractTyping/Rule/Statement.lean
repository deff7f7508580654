import ContractTyping.Rule.Basic

/-!
Statements of function bodies.
-/

namespace ContractTyping.Rule

/-- The value is expected to have the type of the target. -/
def assign : Rule := fun visit n _ =>
  match n.children with
  | target :: value :: rest => do
    let target ← visit target none
    let value ← visit value target.ty
    return { n with children := target :: value :: rest, ty := some .void }
  | _ => pure (n.lacking 2)

/-- A return has the type of its operand. An operand that is a bare untyped name is looked up; any
other untyped operand leaves the type unresolved. -/
def returnStatement : Rule := fun visit n expected =>
  match n.children with
  | operand :: rest => do
    let operand ← visit operand expected
    let n := { n with children := operand :: rest }
    match operand.ty, operand.error, operand.children, operand.payload with
    | some ty, _, _, _ => return n.withType (some ty)
    | none, none, [], some name => resolving n name fun ty => return n.withType (some ty)
    | none, _, _, _ => return n.withType (some .unknown)
  | _ => pure (n.lacking 1)

/-- A record of a function that has a display name carries that name. -/
def recordStatement : Rule := fun visit n expected =>
  match n.children with
  | target :: event :: rest => do
    let target ← visit target expected
    let display ← Pass.asks (·.ledger.displayName? event.text)
    let label := display.toList.map fun text => (Node.leaf .text text).withContext "name"
    return { n with children := target :: event :: rest ++ label, ty := some .void }
  | _ => pure (n.lacking 2)

def completeStatement : Rule := fun _ n _ => pure (n.withType (some .bool))

end ContractTyping.Rule
