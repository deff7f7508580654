import ContractTyping.Rule.Basic

/-!
Ready-made rules for open kinds, by name.
-/

namespace ContractTyping.Rule.Stock

/-- Takes the expected type, also when there is none. -/
def echo : Rule := fun _ n expected => pure (n.withType expected)

/-- Visits every child and takes the type of the last. -/
def each : Rule := fun visit n expected => do
  let children ← visitAll visit n.children expected
  return { n with children, ty := children.getLast?.bind (·.ty) }

/-- Finishes the node as it stands. -/
def settle : Rule := fun _ n _ => pure n.finish

/-- Binds the node's text to its type, or to the expected one. -/
def bind : Rule := fun _ n expected => do
  Pass.bindName n.text (Ty.orUnknown (n.ty <|> expected))
  return n.withType (some .void)

/-- Reports the node's text as unresolved, without a log entry. -/
def fail : Rule := fun _ n _ => pure (n.fail (.unresolvedName n.text n.span))

/-- Empties the ledger. -/
def reset : Rule := fun _ n _ => do
  Pass.updateLedger fun _ => {}
  return n.finish

/-- Hands the node on under the kind that its payload names. -/
def retag : Rule := fun visit n expected =>
  visit { n with tag := Tag.ofName (n.payload.getD "Text"), payload := none } expected

/-- Writes down how many imports, declarations and unguarded parameters there are. -/
def count : Rule := fun _ n _ => do
  let counts ← Pass.asks (·.ledger.counts)
  let text := "[" ++ ",".intercalate (counts.map toString) ++ "]"
  return { n with payload := some text, ty := some .string }

def named? : String → Option Rule
  | "echo" => some echo
  | "each" => some each
  | "over" => some settle
  | "bind" => some bind
  | "fail" => some fail
  | "reset" => some reset
  | "retag" => some retag
  | "count" => some count
  | _ => none

end ContractTyping.Rule.Stock
