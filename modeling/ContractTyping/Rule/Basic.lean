import ContractTyping.Pass

/-!
Rules. A visitor processes a node under an expected type; a rule processes nodes of one kind, given
a visitor for the nodes below. Here are the steps that rules share.
-/

namespace ContractTyping

abbrev Visitor := Node → Option Ty → Pass Node

abbrev Rule := Visitor → Visitor

/-- Adopts the expected type. -/
def Node.adopt (n : Node) (expected : Option Ty) : Node := n.withType (some (Ty.orVoid expected))

namespace Rule

/-- Visits nodes from left to right. -/
def visitAll (visit : Visitor) : List Node → Option Ty → Pass (List Node)
  | [], _ => pure []
  | n :: ns, expected => do
    let n ← visit n expected
    let ns ← visitAll visit ns expected
    return n :: ns

/-- Reports a name that is not in scope. -/
def unresolved (n : Node) (name : String) : Pass Node := do
  Pass.emit (.untyped name n.tag)
  return n.fail (.unresolvedName name n.span)

/-- Goes on with the type of a name, or reports the name on the node. -/
def resolving (n : Node) (name : String) (found : Ty → Pass Node) : Pass Node := do
  match ← Pass.lookup? name with
  | some ty => found ty
  | none => unresolved n name

@[simp]
theorem visitAll_nil (visit : Visitor) (expected : Option Ty) :
    visitAll visit [] expected = pure [] := rfl

theorem length_visitAll (visit : Visitor) (ns : List Node) (expected : Option Ty) (env : Env) :
    (visitAll visit ns expected env).value.length = ns.length := by
  induction ns generalizing env with
  | nil => rfl
  | cons n ns ih => simp [visitAll, ih]

end Rule

end ContractTyping
