import ContractTyping.ImportName
import ContractTyping.Rule.Basic

/-!
Imports, and the declaration scopes in which they are bound.
-/

namespace ContractTyping.Rule

/-- A bare string stands for an empty list of imports. -/
def importList : Rule := fun visit n expected =>
  match n.children, n.payload with
  | [], some _ =>
    let nothing := (Node.leaf .noImport "").withSpan n.span
    pure ({ n with payload := none, children := [nothing] }.adopt expected)
  | children, _ => do
    let children ← visitAll visit children expected
    return { n with children }.adopt expected

/-- Records an import laid out as a symbol with its short name, a path and an address. -/
def importDecl : Rule := fun _ n expected =>
  match n.children with
  | names :: path :: address :: _ =>
    match names.descendant? [0, 0], names.descendant? [1] with
    | some symbol, some short => do
      let encodedName := ImportName.encode symbol.text
      Pass.emit (.recordedImport symbol.text encodedName)
      Pass.updateLedger
        (·.addImport { encodedName, shortName := short.text, path := path.text,
                       address := address.text })
      return n.adopt expected
    | _, _ => pure (n.fail (.missingChild names.tag.name 2 names.span))
  | _ => pure (n.lacking 3)

/-- Binds the imports recorded so far in the scope that follows them. -/
def variableDecl : Rule := fun visit n expected => do
  let children ← visitAll visit n.children none
  let imports ← Pass.asks (·.ledger.imports)
  return { n with children := children ++ imports.map Import.toPair }.adopt expected

end ContractTyping.Rule
