import ContractTyping.Rule.Basic

/-!
Access to mappings.
-/

namespace ContractTyping.Rule

/-- Reports on an access that its operand is no mapping. -/
def notAMapping (arity : Nat) (n operand : Node) : Node :=
  n.fail (.typeFault
    (.notAMapping (Ty.orUnknown operand.ty).render arity.toUInt64 operand.span))

/-- Types the operand that follows `arity` indices, then the indices. The access has the type that
the mapping returns. -/
def mapping (arity : Nat) : Rule := fun visit n _ =>
  match n.children.drop arity with
  | [] => pure (n.lacking (arity + 1).toUInt64)
  | operand :: rest => do
    let operand ← visit operand none
    match operand.ty.bind (Ty.asMapping arity) with
    | some (_, returns) =>
      let indices ← visitAll visit (n.children.take arity) none
      return { n with children := indices ++ operand :: rest, ty := some returns }
    | none =>
      let indices := n.children.take arity
      return notAMapping arity { n with children := indices ++ operand :: rest } operand

end ContractTyping.Rule
