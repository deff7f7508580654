import ContractTyping.Rule.Basic

/-!
Function declarations. The raw body is split into parameters and statements, address parameters are
guarded against zero, the type of the function is bound to its name, and markers are appended. A
body that ends in an event makes the whole declaration an event declaration.
-/

namespace ContractTyping.Rule

/-! ## Parameters -/

def functionName : Rule := fun _ n expected =>
  match n.children with
  | [name, display] => do
    Pass.updateLedger (·.addDisplayName name.text display.text)
    return n.adopt expected
  | _ => pure (n.adopt expected)

/-- A block of parameters has the type of a function of these parameters, its result left open. -/
def sealParams (n : Node) (children : List Node) : Node :=
  { n with children, ty := some (.function (Node.types children) none) }

def fdParam : Rule := fun visit n expected => do
  let children ← visitAll visit n.children expected
  return sealParams n children

/-- Strings are marked as held in memory. -/
def memoryMarker (ty : Ty) : List Node :=
  if ty.isNamed "string" then [(Node.leaf .memoryType "").withContext "memory"] else []

/-- Addresses wait for a guard, unless guards are switched off. -/
def awaitGuard (config : Config) (ty : Ty) (name : Node) : Pass Unit :=
  if ty.isNamed "address" && config.synthesizeGuards then
    Pass.updateLedger (·.addUnguarded name)
  else
    pure ()

/-- A parameter has the type of its name, which stands last. -/
def fdPair (config : Config) : Rule := fun _ n _ =>
  match n.children.getLast? with
  | none => pure (n.lacking 1)
  | some name =>
    resolving n name.text fun ty => do
      let name := name.withType (some ty)
      awaitGuard config ty name
      return { n with children := n.children.dropLast ++ name :: memoryMarker ty, ty := some ty }

/-! ## Guards -/

/-- Requires a parameter to differ from the zero address. -/
def guardOf (config : Config) (param : Node) : Node :=
  { tag := .require
    children := [
      { tag := .infixExpr
        children := [param, .leaf .nameExpr config.guardOperator, .leaf .text config.zeroAddress]
        span := param.span }]
    span := param.span }

/-- The guards of the parameters that wait for one, in order. Afterwards none waits. -/
def takeGuards (config : Config) : Pass (List Node) := do
  let params ← Pass.asks (·.ledger.unguarded)
  Pass.updateLedger ({ · with unguarded := [] })
  Pass.emitAll (params.map fun _ => .dispatch .nameExpr)
  return params.map (guardOf config)

/-- The log names a function that has guards. -/
def announceGuards (function : String) (guards : List Node) : Pass Unit :=
  Pass.emitAll (if guards.isEmpty then [] else [.guarded function guards.length])

/-! ## Bodies -/

/-- The result of a body is the type of a final return or completion, and `void` otherwise. -/
def resultType (statements : List Node) : Ty :=
  match statements.getLast? with
  | some last =>
    if last.tag = .returnStatement ∨ last.tag = .completeStatement then Ty.orUnknown last.ty
    else .void
  | none => .void

def sealBody (n : Node) (children : List Node) : Node :=
  { n with children, ty := some (resultType children) }

def fdBody : Rule := fun visit n _ => do
  let children ← visitAll visit n.children none
  return sealBody n children

/-! ## Declarations -/

def isParam (n : Node) : Bool := n.tag == .functionParam

/-- The parameter that a parameter slot holds. -/
def params (raw : Node) : List Node := (raw.children.filter isParam).filterMap (·.children.head?)

def statements (raw : Node) : List Node := raw.children.filter (!isParam ·)

def paramBlock (visit : Visitor) (raw : Node) : Pass Node := do
  Pass.emit (.dispatch .fdParam)
  let children ← visitAll visit (params raw) none
  return sealParams { tag := .fdParam, context := some "param", span := raw.span } children

/-- The body with guards in front. A guard is complete and is passed over. -/
def bodyBlock (visit : Visitor) (raw : Node) (guards : List Node) : Pass Node := do
  Pass.emit (.dispatch .fdBody)
  Pass.emitAll (guards.map fun g => .dispatch g.tag)
  let children ← visitAll visit (statements raw) none
  return sealBody { tag := .fdBody, context := some "body", span := raw.span } (guards ++ children)

/-- A declaration without parameters takes the expected type, if any, as its only parameter. -/
def paramTypes (param : Node) (expected : Option Ty) : List Ty :=
  match param.ty.elim [] Ty.params with
  | [] => expected.toList
  | ps => ps

def endsWithEvent (body : Node) : Bool := body.children.getLast?.any (·.tag == .eventStatement)

/-- A function that records nothing is marked as a view. -/
def isReadOnly (body : Node) : Bool := body.children.all (·.tag != .recordStatement)

/-- The constructor has the configured display name. -/
def isConstructor (config : Config) (name : Node) : Bool :=
  match name.children with
  | [_, display] => display.text == config.constructorName
  | _ => false

/-- The markers that follow parameters and body. -/
def markers (config : Config) (name body : Node) (returns : Ty) : List Node :=
  (if returns.isVoid then []
    else [((Node.leaf .returnType returns.render).withContext "returns").withType (some returns)])
  ++ (if isConstructor config name then []
    else (Node.leaf .notConstructor "").withContext "nconst" ::
      (if isReadOnly body then [(Node.leaf .viewType "").withContext "view"] else []))

/-- An event declaration keeps the name and the parameters of the function. -/
def eventOf (n name param : Node) (expected : Option Ty) : Node :=
  Node.adopt { tag := .eventDecl, children := [name, param], span := n.span } expected

/-- Parameters, body and markers stand in place of the raw body. -/
def functionOf (config : Config) (n : Node) (expected : Option Ty) (name : Node)
    (middle : List Node) (param body : Node) : Node :=
  Node.adopt
    { n with
      children := name :: middle ++ [param, body] ++ markers config name body (Ty.orVoid body.ty) }
    expected

/-- Binds the function and hands back what the declaration becomes. -/
def concludeFunction (config : Config) (n : Node) (expected : Option Ty) (name : Node)
    (middle : List Node) (param body : Node) : Pass Node := do
  let function := { n with children := name :: middle }.text
  Pass.bindName function (.function (paramTypes param expected) (some (Ty.orVoid body.ty)))
  if endsWithEvent body then
    Pass.emitAll [.becameEvent function, .dispatch .eventDecl]
    return eventOf n name param expected
  else
    return functionOf config n expected name middle param body

/-- The raw body stands last. -/
def rawBody (next : Node) (more : List Node) : Node :=
  (next :: more).getLast (List.cons_ne_nil next more)

/-- A declaration is laid out as a name, perhaps further children, and the raw body. -/
def functionDecl (config : Config) : Rule := fun visit n expected =>
  match n.children with
  | name :: next :: more => do
    let middle := (next :: more).dropLast
    let name ← visit name expected
    let param ← paramBlock visit (rawBody next more)
    let guards ← takeGuards config
    announceGuards { n with children := name :: middle }.text guards
    let body ← bodyBlock visit (rawBody next more) guards
    concludeFunction config n expected name middle param body
  | _ => pure (n.lacking 2)

end ContractTyping.Rule
