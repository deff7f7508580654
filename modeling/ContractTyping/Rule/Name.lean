import ContractTyping.Rule.Basic

/-!
Names in expressions.
-/

namespace ContractTyping.Rule

/-- A pair has the type of the name in its second place. -/
def pair : Rule := fun _ n _ =>
  match n.children with
  | first :: name :: rest =>
    resolving n name.text fun ty =>
      return { n with children := first :: name.withType (some ty) :: rest, ty := some ty }
  | _ => pure (n.lacking 2)

/-- A raw name may stay untyped without being reported. -/
def raw : Rule := fun _ n _ => do
  match ← Pass.lookup? n.text with
  | some ty => return n.withType (some ty)
  | none =>
    Pass.emit (.rawUntyped n.text)
    return n.withType none

def intExpr : Rule := fun _ n _ => pure (n.withType (some .int256))

end ContractTyping.Rule
