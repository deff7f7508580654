import ContractTyping.Proofs.Preservation

/-!
What becomes of a function declaration. Its parts are visited in turn: the name, a block of the
parameters, and a block of the statements behind the guards. The markers behind the blocks, and
whether the declaration becomes an event, are decided by the raw body as it was given. Main
statement: `Engine.visit_functionDecl`.
-/

namespace ContractTyping

namespace Node

/-- The parameters of a raw body in a block of their own, still to be visited. -/
def toParams (raw : Node) : Node :=
  { tag := .fdParam, children := raw.slotParams, context := some "param", span := raw.span }

/-- The statements of a raw body behind guards, still to be visited. -/
def toBody (raw : Node) (guards : List Node) : Node :=
  { tag := .fdBody
    children := guards ++ raw.bodyStatements
    context := some "body"
    span := raw.span }

/-- The last statement of a raw body returns or completes. -/
def EndsInResult (raw : Node) : Prop :=
  ∃ last, raw.bodyStatements.getLast? = some last ∧
    (last.tag = .returnStatement ∨ last.tag = .completeStatement)

/-- Some statement of a raw body records. -/
def Records (raw : Node) : Prop := ∃ s ∈ raw.bodyStatements, s.tag = .recordStatement

/-- The name of the constructor has two parts, the second of which is the configured one. -/
def NamesConstructor (config : Config) (name : Node) : Prop :=
  name.children.length = 2 ∧ name.children[1]?.map text = some config.constructorName

instance (raw : Node) : Decidable raw.Records :=
  inferInstanceAs (Decidable (∃ s ∈ raw.bodyStatements, _))

instance (config : Config) (name : Node) : Decidable (name.NamesConstructor config) :=
  inferInstanceAs (Decidable (_ ∧ _))

/-- The markers behind the blocks of a function with this result: its type unless it is void, that
the function is no constructor, and that in this case it records nothing. -/
def functionMarkers (config : Config) (raw name : Node) (returns : Ty) : List Node :=
  (if returns = .void then []
    else [{ tag := .returnType, payload := some returns.render, ty := some returns,
            context := some "returns" }]) ++
  (if name.NamesConstructor config then []
    else [{ tag := .notConstructor, payload := some "", context := some "nconst" }]) ++
  (if name.NamesConstructor config ∨ raw.Records then []
    else [{ tag := .viewType, payload := some "", context := some "view" }])

end Node

/-! ## The blocks of a function are visited like any others -/

namespace Rule

theorem visitAll_append (visit : Visitor) (ms ns : List Node) (expected : Option Ty) :
    visitAll visit (ms ++ ns) expected = (do
      let first ← visitAll visit ms expected
      let second ← visitAll visit ns expected
      return first ++ second) := by
  induction ms with
  | nil => simp
  | cons m ms ih => simp [visitAll, ih]

end Rule

namespace Engine

variable {e : Engine}

theorem visitAll_idle (he : e.rules = []) {ms : List Node} (h : ∀ m ∈ ms, e.rule? m.tag = none)
    (expected : Option Ty) :
    Rule.visitAll e.visit ms expected =
      (do Pass.emitAll (ms.map fun m => .dispatch m.tag); return ms) := by
  induction ms with
  | nil => rfl
  | cons m ms ih =>
    have tail := ih fun k hk => h k (List.mem_cons_of_mem _ hk)
    rw [Rule.visitAll, visit_of_idle he (h m List.mem_cons_self), tail]
    simp only [bind_assoc, pure_bind]
    rfl

theorem paramBlock_eq_visit (he : e.rules = []) (raw : Node) :
    Rule.paramBlock e.visit raw = e.visit raw.toParams none := by
  rw [visit_of_rule (r := Rule.fdParam) he rfl, Rule.paramBlock, Rule.params_eq_slotParams]
  rfl

theorem bodyBlock_eq_visit (he : e.rules = []) (raw : Node) {guards : List Node}
    (guarded : ∀ g ∈ guards, g.tag = .require) :
    Rule.bodyBlock e.visit raw guards = e.visit (raw.toBody guards) none := by
  have idle : ∀ g ∈ guards, e.rule? g.tag = none := by
    intro g hg
    rw [guarded g hg]
    rfl
  rw [visit_of_rule (r := Rule.fdBody) he rfl, Rule.bodyBlock, Rule.statements_eq_filter]
  simp only [Rule.fdBody, Node.toBody, Rule.visitAll_append, visitAll_idle he idle, bind_assoc,
    pure_bind]
  rfl

end Engine

/-! ## What decides the shape -/

namespace Rule

open Pass Node

variable {config : Config} {raw body name : Node} {guards visited : List Node}

theorem isConstructor_iff : isConstructor config name = true ↔ name.NamesConstructor config := by
  unfold isConstructor NamesConstructor
  split
  · rename_i first display hc
    simp [hc]
  · rename_i other
    constructor
    · nofun
    · rintro ⟨two, -⟩
      obtain ⟨first, display, hc⟩ := List.length_eq_two.mp two
      exact absurd hc (other first display)

theorem isVoid_iff {ty : Ty} : ty.isVoid = true ↔ ty = .void := Ty.isNamed_iff

/-- A visit makes no record and leaves none out. -/
theorem all_unrecorded {ms os : List Node} (h : List.Forall₂ BecomesOf ms os) :
    os.all (·.tag != .recordStatement) = ms.all (·.tag != .recordStatement) := by
  induction h with
  | nil => rfl
  | cons one _ ih =>
    rw [List.all_cons, List.all_cons, ih]
    congr 1
    rcases one.tag with same | ⟨before, after⟩
    · rw [same]
    · rw [before, after]
      rfl

theorem isReadOnly_iff (children : body.children = guards ++ visited)
    (guarded : ∀ g ∈ guards, g.tag = .require)
    (each : List.Forall₂ BecomesOf raw.bodyStatements visited) :
    isReadOnly body = true ↔ ¬ raw.Records := by
  rw [isReadOnly_guards guarded children, all_unrecorded each]
  simp [Records]

/-- Only a final return or completion gives a body a result. -/
theorem endsInResult_of_resultType (guarded : ∀ g ∈ guards, g.tag = .require)
    (each : List.Forall₂ BecomesOf raw.bodyStatements visited)
    (h : resultType (guards ++ visited) ≠ .void) : raw.EndsInResult := by
  rw [resultType_guards guarded] at h
  unfold resultType at h
  split at h
  · rename_i last hl
    split at h
    · rename_i result
      obtain ⟨m, hm, one⟩ := getLast?_of_forall₂ each hl
      refine ⟨m, hm, ?_⟩
      rcases one.tag with same | ⟨before, after⟩
      · rwa [same] at result
      · simp [after] at result
    · exact absurd rfl h
  · exact absurd rfl h

theorem markers_eq_functionMarkers (readOnly : isReadOnly body = true ↔ ¬ raw.Records)
    (returns : Ty) :
    markers config name body returns = functionMarkers config raw name returns := by
  unfold markers functionMarkers
  simp only [isVoid_iff, isConstructor_iff, readOnly]
  rw [List.append_assoc]
  congr 1
  by_cases constructor : name.NamesConstructor config
  · simp [constructor]
  · by_cases records : raw.Records
    · simp [constructor, records, leaf, withContext]
    · simp [constructor, records, leaf, withContext]

theorem paramBlock_ty {visit : Visitor} {param : Node} (h : (paramBlock visit raw).Returns param) :
    param.ty = some (.function (types param.children) none) := by
  obtain ⟨_, _, h⟩ := h.of_bind
  obtain ⟨_, _, h⟩ := h.of_bind
  cases returns_pure_iff.mp h
  rfl

theorem bodyBlock_ty {visit : Visitor} (h : (bodyBlock visit raw guards).Returns body) :
    body.ty = some (resultType body.children) := by
  obtain ⟨_, _, h⟩ := h.of_bind
  obtain ⟨_, _, h⟩ := h.of_bind
  obtain ⟨_, _, h⟩ := h.of_bind
  cases returns_pure_iff.mp h
  rfl

/-- The rule for functions, told by the layout of the declaration. -/
theorem functionDecl_of_layout {n first : Node} {middle : List Node}
    (layout : n.children = first :: (middle ++ [raw])) (visit : Visitor) (expected : Option Ty) :
    functionDecl config visit n expected = (do
      let name ← visit first expected
      let param ← paramBlock visit raw
      let guards ← takeGuards config
      announceGuards { n with children := name :: middle }.text guards
      let body ← bodyBlock visit raw guards
      concludeFunction config n expected name middle param body) := by
  obtain ⟨next, more, hm⟩ : ∃ next more, middle ++ [raw] = next :: more :=
    List.exists_cons_of_ne_nil (by simp)
  have last : rawBody next more = raw := by simp [rawBody, ← hm]
  have front : (next :: more).dropLast = middle := by simp [← hm]
  unfold functionDecl
  rw [layout, hm]
  simp only [last, front]

end Rule

/-! ## Declarations -/

namespace Engine

/-- A function taken apart: its name, its parameters and its body as they come back. -/
structure FunctionParts where
  name : Node
  param : Node
  body : Node

/-- Visits the parts of a function in turn. The body starts with guards for the parameters that wait
for one by then. -/
def functionParts (e : Engine) (first raw : Node) (expected : Option Ty) (env : Env) :
    FunctionParts :=
  let named := e.visit first expected env
  let param := e.visit raw.toParams none named.env
  let guards := param.env.ledger.unguarded.map (Rule.guardOf e.config)
  let idle := param.env.updateLedger ({ · with unguarded := [] })
  { name := named.value
    param := param.value
    body := (e.visit (raw.toBody guards) none idle).value }

section Parts

variable {e : Engine} (he : e.rules = []) {n : Node} (first raw : Node) {middle : List Node}
  (expected : Option Ty) (env : Env)

include he

theorem functionParts_param :
    (Rule.paramBlock e.visit raw).Returns (e.functionParts first raw expected env).param := by
  rw [paramBlock_eq_visit he]
  exact Pass.returns_self _ _

theorem functionParts_param_children : (e.functionParts first raw expected env).param.children =
    (Rule.visitAll e.visit raw.slotParams none (e.visit first expected env).env).value := by
  show (e.visit raw.toParams none (e.visit first expected env).env).value.children = _
  rw [visit_of_rule (r := Rule.fdParam) he rfl]
  rfl

theorem functionParts_body : ∃ guards, (∀ g ∈ guards, g.tag = .require) ∧
    (Rule.bodyBlock e.visit raw guards).Returns (e.functionParts first raw expected env).body := by
  let param := e.visit raw.toParams none (e.visit first expected env).env
  have guarded : ∀ g ∈ param.env.ledger.unguarded.map (Rule.guardOf e.config), g.tag = .require :=
    List.forall_mem_map.mpr fun _ _ => rfl
  refine ⟨_, guarded, ?_⟩
  rw [bodyBlock_eq_visit he raw guarded]
  exact Pass.returns_self _ _

/-- The body as it comes back says of its end and its records what the raw body says. -/
theorem functionParts_decided :
    (Rule.endsWithEvent (e.functionParts first raw expected env).body = true ↔ raw.EndsInEvent) ∧
    (Rule.isReadOnly (e.functionParts first raw expected env).body = true ↔ ¬ raw.Records) ∧
    ∃ returns, (e.functionParts first raw expected env).body.ty = some returns ∧
      (returns ≠ .void → raw.EndsInResult) := by
  obtain ⟨guards, guarded, body⟩ := functionParts_body he first raw expected env
  obtain ⟨-, visited, children, returned⟩ := Rule.bodyBlock_returns body
  rw [Rule.statements_eq_filter] at returned
  have rewritten : RewritesEach false raw.bodyStatements visited :=
    Rule.rewritesEach_of_returns (fun m _ ex => rewrites_visit he m ex)
      (fun m hm => Node.inside_of_child (List.mem_filter.mp hm).1) returned
  have kinds : List.Forall₂ Node.BecomesOf raw.bodyStatements visited :=
    returned.imp fun m o one => visit_head he m none o one
  refine ⟨Rule.endsWithEvent_iff children guarded rewritten,
    Rule.isReadOnly_iff children guarded kinds, _, Rule.bodyBlock_ty body, fun result => ?_⟩
  rw [children] at result
  exact Rule.endsInResult_of_resultType guarded kinds result

/-- The rule for functions visits the parts as they are taken apart here. -/
theorem concludeFunction_functionParts (kind : n.tag = .functionDecl)
    (layout : n.children = first :: (middle ++ [raw])) :
    (Rule.concludeFunction e.config n expected (e.functionParts first raw expected env).name middle
      (e.functionParts first raw expected env).param
      (e.functionParts first raw expected env).body).Returns (e.visit n expected env).value := by
  have run : e.visit n expected =
      (do Pass.emit (.dispatch n.tag); Rule.functionDecl e.config e.visit n expected) :=
    visit_of_rule he (by rw [kind]; rfl) expected
  rw [run, Rule.functionDecl_of_layout layout, paramBlock_eq_visit he]
  simp only [Pass.bind_value]
  rw [bodyBlock_eq_visit he raw (Rule.takeGuards_tag _ _ (Pass.returns_self _ _))]
  exact Pass.returns_self _ _

end Parts

/-- **The shape of a function declaration.** The parameters are what the slots of the raw body hold,
visited in turn. If the last statement of the raw body is an event, the declaration becomes an event
of its name and its parameters. Otherwise the two blocks stand in place
of the raw body, followed by the markers; the body has a result other than void only if the last
statement returns or completes. -/
theorem visit_functionDecl (config : Config) (n first raw : Node) (middle : List Node)
    (expected : Option Ty) (env : Env) (kind : n.tag = .functionDecl)
    (layout : n.children = first :: (middle ++ [raw])) :
    let parts := functionParts { config } first raw expected env
    let out := (visit { config } n expected env).value
    parts.name = (visit { config } first expected env).value ∧
    raw.BlockOf .fdParam "param" parts.param ∧
    parts.param.children = (Rule.visitAll (visit { config }) raw.slotParams none
      (visit { config } first expected env).env).value ∧
    parts.param.ty = some (.function (Node.types parts.param.children) none) ∧
    (raw.EndsInEvent →
      out = { tag := .eventDecl, children := [parts.name, parts.param], span := n.span,
              ty := some (Ty.orVoid expected) }) ∧
    (¬ raw.EndsInEvent →
      raw.BlockOf .fdBody "body" parts.body ∧
      ∃ returns, parts.body.ty = some returns ∧ (returns ≠ .void → raw.EndsInResult) ∧
        out = { n with
          children := parts.name :: (middle ++ parts.param :: parts.body ::
            Node.functionMarkers config raw parts.name returns)
          ty := some (Ty.orVoid expected) }) := by
  intro parts out
  have param := functionParts_param (e := { config }) rfl first raw expected env
  obtain ⟨guards, -, body⟩ := functionParts_body (e := { config }) rfl first raw expected env
  obtain ⟨event, readOnly, returns, ty, result⟩ :=
    functionParts_decided (e := { config }) rfl first raw expected env
  have concluded :=
    concludeFunction_functionParts (e := { config }) rfl first raw expected env kind layout
  refine ⟨rfl, Rule.paramBlock_blockOf param,
    functionParts_param_children (e := { config }) rfl first raw expected env,
    Rule.paramBlock_ty param, fun ends => ?_, fun ends => ?_⟩
  · rcases Rule.concludeFunction_returns _ _ _ _ _ _ _ concluded with ⟨-, same⟩ | ⟨other, -⟩
    · exact same
    · rw [event.mpr ends] at other
      cases other
  · refine ⟨Rule.bodyBlock_blockOf body, returns, ty, result, ?_⟩
    rcases Rule.concludeFunction_returns _ _ _ _ _ _ _ concluded with ⟨other, -⟩ | ⟨-, same⟩
    · exact absurd (event.mp other) ends
    · have marks : Rule.markers config parts.name parts.body (Ty.orVoid parts.body.ty) =
          Node.functionMarkers config raw parts.name returns := by
        rw [ty]
        exact Rule.markers_eq_functionMarkers readOnly returns
      rw [← marks]
      refine same.trans ?_
      simp [Rule.functionOf, Node.adopt, Node.withType, parts]

/-- The raw body of a function that returns what it looks up. -/
def supplyBody : Node :=
  { tag := .block
    children := [
      { tag := .functionParam
        children := [{ tag := .fdPair, children := [.leaf .nameExpr "owner"] }] },
      { tag := .returnStatement, children := [.leaf .raw "supply"] }] }

def supply : Node :=
  { tag := .functionDecl, children := [.leaf .nameExpr "total", supplyBody] }

def supplyEnv : Env := { scope := [("owner", .named "address"), ("supply", .int256)] }

theorem visit_functionDecl_supply :
    supply.tag = .functionDecl ∧
    supply.children = .leaf .nameExpr "total" :: ([] ++ [supplyBody]) ∧
    ¬ supplyBody.EndsInEvent ∧ supplyBody.EndsInResult ∧
    (functionParts {} (.leaf .nameExpr "total") supplyBody none supplyEnv).param.children.map
      Node.tag = [.fdPair] ∧
    (visit {} supply none supplyEnv).value.children.map Node.tag =
      [.nameExpr, .fdParam, .fdBody, .returnType, .notConstructor, .viewType] := by
  have noEvent : ¬ supplyBody.EndsInEvent := by
    rintro ⟨last, h, event⟩
    cases h
    cases event
  obtain ⟨-, -, params, -, -, function⟩ :=
    visit_functionDecl {} supply (.leaf .nameExpr "total") supplyBody [] none supplyEnv rfl rfl
  obtain ⟨-, returns, ty, result, same⟩ := function noEvent
  cases ty
  refine ⟨rfl, rfl, noEvent, result (by decide), ?_, ?_⟩
  · rw [params]
    rfl
  · rw [same]
    rfl

end Engine

end ContractTyping
