import ContractTyping.Literal
import ContractTyping.Rule.Basic

/-!
Assumptions, which bind names to literals.
-/

namespace ContractTyping.Rule

/-- Word definitions and blocks of assumptions are finished without a type of their own. -/
def finishing : Rule := fun visit n expected => do
  let children ← visitAll visit n.children expected
  return { n with children }.finish

/-- Binds a name to the type that its literal names, with integer widths fixed. -/
def assumeDecl : Rule := fun visit n expected =>
  match n.children with
  | name :: value :: rest => do
    let name ← visit name expected
    let value ← visit value expected
    let rest ← visitAll visit rest expected
    let value := value.normalizeValue
    let ty := value.literalType
    Pass.emit (.boundAssumption name.text ty)
    Pass.bindName name.text ty
    return { n with children := name :: value :: rest, ty := some .void }
  | _ => pure (n.lacking 2)

end ContractTyping.Rule
