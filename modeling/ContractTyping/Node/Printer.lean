import ContractTyping.Node.Basic

/-!
The bracketed text of a tree: a mark and the kind, the quoted payload if there is one, then the
children, each after a space.
-/

namespace ContractTyping.Node

def renderPayload : Option String → String
  | some text => " " ++ quoted text
  | none => ""

mutual

def render : Node → String
  | { tag, children, payload, .. } =>
    "[#" ++ tag.name ++ renderPayload payload ++ renderList children ++ "]"

def renderList : List Node → String
  | [] => ""
  | n :: ns => " " ++ n.render ++ renderList ns

end

theorem render_eq (n : Node) :
    n.render = "[#" ++ n.tag.name ++ renderPayload n.payload ++ renderList n.children ++ "]" := by
  cases n
  rw [render]

end ContractTyping.Node
