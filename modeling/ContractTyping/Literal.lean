import ContractTyping.Node.Basic

/-!
Literals of assumptions: integers of generic width get a fixed one, and a literal is read as the
type it names. A sequence of literals is read as a list of types.
-/

namespace ContractTyping

/-- The fixed-width name of a generic integer; other names stay. -/
def fixedWidth (name : String) : String :=
  if name = "int" then "int256" else if name = "uint" then "uint256" else name

namespace Node

def normalizeWidth (n : Node) : Node := { n with payload := n.payload.map fixedWidth }

mutual

/-- Fixes the width of a literal, or of every element when the value is a sequence. -/
def normalizeValue : Node → Node
  | { tag, children := [], payload, ty, context, error, done, span } =>
    { tag, payload := payload.map fixedWidth, ty, context, error, done, span }
  | { tag, children := c :: cs, payload, ty, context, error, done, span } =>
    { tag, children := normalizeValue c :: normalizeValues cs, payload, ty, context, error, done,
      span }

def normalizeValues : List Node → List Node
  | [] => []
  | n :: ns => n.normalizeValue :: normalizeValues ns

end

mutual

/-- The type a literal names. -/
def literalType : Node → Ty
  | { children := [], payload, .. } => .named (payload.getD "")
  | { children := c :: cs, .. } => .list (literalType c :: literalTypes cs)

def literalTypes : List Node → List Ty
  | [] => []
  | n :: ns => n.literalType :: literalTypes ns

end

theorem normalizeValues_eq_map (ns : List Node) : normalizeValues ns = ns.map normalizeValue := by
  induction ns with
  | nil => rfl
  | cons n ns ih => simp [normalizeValues, ih]

theorem literalTypes_eq_map (ns : List Node) : literalTypes ns = ns.map literalType := by
  induction ns with
  | nil => rfl
  | cons n ns ih => simp [literalTypes, ih]

theorem normalizeValue_of_isLeaf {n : Node} (h : n.isLeaf = true) :
    n.normalizeValue = n.normalizeWidth := by
  obtain ⟨tag, children, payload⟩ := n
  cases children with
  | nil => rfl
  | cons c cs => simp [isLeaf] at h

theorem normalizeValue_of_children {n : Node} (h : n.children ≠ []) :
    n.normalizeValue = { n with children := n.children.map normalizeValue } := by
  obtain ⟨tag, children, payload⟩ := n
  cases children with
  | nil => simp at h
  | cons c cs => simp [normalizeValue, normalizeValues_eq_map]

theorem literalType_of_isLeaf {n : Node} (h : n.isLeaf = true) : n.literalType = .named n.text := by
  obtain ⟨tag, children, payload⟩ := n
  cases children with
  | nil => cases payload <;> rfl
  | cons c cs => simp [isLeaf] at h

theorem literalType_of_children {n : Node} (h : n.children ≠ []) :
    n.literalType = .list (n.children.map literalType) := by
  obtain ⟨tag, children, payload⟩ := n
  cases children with
  | nil => simp at h
  | cons c cs => simp [literalType, literalTypes_eq_map]

end Node

end ContractTyping
