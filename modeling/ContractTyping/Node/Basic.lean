import ContractTyping.Diagnostic
import ContractTyping.Tag
import ContractTyping.Ty

/-!
Trees of a contract source. A node owns its children; the pass hands back nodes with a type, a
diagnostic or the mark of being finished. Main statements: a child is smaller than its parent, and
`errors` lists the diagnostics of a subtree in pre-order.
-/

namespace ContractTyping

structure Node where
  tag : Tag
  children : List Node := []
  payload : Option String := none
  ty : Option Ty := none
  context : Option String := none
  error : Option Diagnostic := none
  /-- Finished without a type of its own. -/
  done : Bool := false
  span : Span := {}
  deriving Repr, Inhabited

namespace Node

/-- A childless node with a payload. -/
def leaf (tag : Tag) (text : String) : Node := { tag, payload := some text }

def withType (n : Node) (ty : Option Ty) : Node := { n with ty }

def withContext (n : Node) (context : String) : Node := { n with context := some context }

def withSpan (n : Node) (span : Span) : Node := { n with span }

/-- Attaches a diagnostic. -/
def fail (n : Node) (error : Diagnostic) : Node := { n with error := some error }

def finish (n : Node) : Node := { n with done := true }

/-- Reports that fewer than `count` children are there. -/
def lacking (n : Node) (count : UInt64) : Node :=
  n.fail (.missingChild n.tag.name count n.span)

/-- Typed, failed or finished. -/
def isResolved (n : Node) : Bool := n.ty.isSome || n.error.isSome || n.done

def isLeaf (n : Node) : Bool := n.children.isEmpty

def child? (n : Node) (index : Nat) : Option Node := n.children[index]?

/-- The node reached by following child positions. -/
def descendant? (n : Node) : List Nat → Option Node
  | [] => some n
  | index :: path => (n.child? index).bind (descendant? · path)

/-- The payload, or the text of the first child: the names of declarations are read this way. -/
def text : Node → String
  | { payload := some payload, .. } => payload
  | { payload := none, children := [], .. } => ""
  | { payload := none, children := first :: _, .. } => first.text

/-- The types of nodes, with untyped ones unresolved. -/
def types (ns : List Node) : List Ty := ns.map fun n => Ty.orUnknown n.ty

mutual

/-- The number of nodes of a tree. -/
def size : Node → Nat
  | { children, .. } => 1 + sizeList children

def sizeList : List Node → Nat
  | [] => 0
  | n :: ns => n.size + sizeList ns

end

mutual

/-- The diagnostics of a subtree, a node before its children. -/
def errors : Node → List Diagnostic
  | { children, error, .. } => error.toList ++ errorsList children

def errorsList : List Node → List Diagnostic
  | [] => []
  | n :: ns => n.errors ++ errorsList ns

end

mutual

def decEq : (a b : Node) → Decidable (a = b)
  | ⟨tag, children, payload, ty, context, error, done, span⟩,
    ⟨tag', children', payload', ty', context', error', done', span'⟩ =>
    match decEqList children children' with
    | isFalse h => isFalse fun e => h (Node.mk.inj e).2.1
    | isTrue h =>
      if k : tag = tag' ∧ payload = payload' ∧ ty = ty' ∧ context = context' ∧ error = error'
          ∧ done = done' ∧ span = span' then
        isTrue (by obtain ⟨rfl, rfl, rfl, rfl, rfl, rfl, rfl⟩ := k; rw [h])
      else
        isFalse fun e => k (by cases e; exact ⟨rfl, rfl, rfl, rfl, rfl, rfl, rfl⟩)

def decEqList : (as bs : List Node) → Decidable (as = bs)
  | [], [] => isTrue rfl
  | [], _ :: _ | _ :: _, [] => isFalse nofun
  | a :: as, b :: bs =>
    match decEq a b, decEqList as bs with
    | isTrue h, isTrue k => isTrue (h ▸ k ▸ rfl)
    | isFalse h, _ => isFalse fun e => h (List.cons.inj e).1
    | _, isFalse k => isFalse fun e => k (List.cons.inj e).2

end

instance : DecidableEq Node := decEq

theorem size_eq (n : Node) : n.size = 1 + sizeList n.children := by
  cases n
  rw [size]

theorem size_pos (n : Node) : 0 < n.size := by
  rw [size_eq]
  omega

theorem size_le_sizeList {n : Node} {ns : List Node} (h : n ∈ ns) : n.size ≤ sizeList ns := by
  induction ns with
  | nil => simp at h
  | cons m ns ih =>
    rw [sizeList]
    rcases List.mem_cons.1 h with rfl | h
    · omega
    · have := ih h
      omega

theorem size_lt_of_mem_children {m n : Node} (h : m ∈ n.children) : m.size < n.size := by
  have := size_le_sizeList h
  rw [size_eq n]
  omega

theorem errors_eq (n : Node) : n.errors = n.error.toList ++ errorsList n.children := by
  cases n
  rw [errors]

end Node

end ContractTyping
