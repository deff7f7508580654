import ContractTyping.Rule.Assumption
import ContractTyping.Rule.Function
import ContractTyping.Rule.Hoisting
import ContractTyping.Rule.Import
import ContractTyping.Rule.Mapping
import ContractTyping.Rule.Name
import ContractTyping.Rule.Statement
import ContractTyping.Rule.Unit

/-!
The pass: one rule per kind of node, and rules that users register for open kinds. A node without a
rule is left as it is. Rules descend, so the size of a tree bounds the depth of visits.
-/

namespace ContractTyping

structure Engine where
  config : Config := {}
  /-- Rules for open kinds, the latest registration first. -/
  rules : List (String × Rule) := []

namespace Engine

/-- Registers a rule for an open kind; it replaces an earlier one. -/
def register (e : Engine) (tag : String) (rule : Rule) : Engine :=
  { e with rules := (tag, rule) :: e.rules }

/-- The rule for a kind. -/
def rule? (e : Engine) : Tag → Option Rule
  | .source => some Rule.source
  | .block => some Rule.block
  | .title => some Rule.adopting
  | .importList => some Rule.importList
  | .importDecl => some Rule.importDecl
  | .variableDecl => some Rule.variableDecl
  | .vPair => some Rule.pair
  | .pair => some Rule.pair
  | .functionDecl => some (Rule.functionDecl e.config)
  | .functionName => some Rule.functionName
  | .fdParam => some Rule.fdParam
  | .fdPair => some (Rule.fdPair e.config)
  | .fdBody => some Rule.fdBody
  | .eventDecl => some Rule.adopting
  | .assign => some Rule.assign
  | .returnStatement => some Rule.returnStatement
  | .recordStatement => some Rule.recordStatement
  | .completeStatement => some Rule.completeStatement
  | .map1 => some (Rule.mapping 1)
  | .map2 => some (Rule.mapping 2)
  | .raw => some Rule.raw
  | .intExpr => some Rule.intExpr
  | .structDefine => some Rule.structDefine
  | .enumType => some (Rule.enumType e.config)
  | .wordDefine => some Rule.finishing
  | .assumeDecls => some Rule.finishing
  | .assumeDecl => some Rule.assumeDecl
  | .other name => e.rules.lookup name
  | _ => none

/-- Applies the rule for a node's kind. -/
def step (e : Engine) : Rule := fun visit n expected => do
  Pass.emit (.dispatch n.tag)
  match e.rule? n.tag with
  | some rule => rule visit n expected
  | none => return n

/-- Visits to a bounded depth; below it, nodes are left as they are. -/
def visitWithin (e : Engine) : Nat → Visitor
  | 0 => fun n _ => pure n
  | depth + 1 => e.step (e.visitWithin depth)

/-- Visits a node and all that its rule descends to. Built-in rules visit a node once; a rule for an
open kind may hand the node on under another kind, for which there is room twice at every level. -/
def visit (e : Engine) : Visitor := fun n expected => e.visitWithin (3 * n.size) n expected

/-- Visits the child at a position, if there is one. -/
def visitChild (e : Engine) (n : Node) (index : Nat) (expected : Option Ty) : Pass Node :=
  match n.children[index]? with
  | some child => do
    let child ← e.visit child expected
    return { n with children := n.children.set index child }
  | none => pure n

/-- Runs the pass over one unit in a fresh environment. -/
def checkUnit (e : Engine) (tree : Node) : Outcome Node :=
  e.visit tree (some .void) (.ofConfig e.config)

end Engine

end ContractTyping
