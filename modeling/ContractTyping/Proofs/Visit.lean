import ContractTyping.Descent
import ContractTyping.Proofs.Triple

/-!
Visits without rules for open kinds. Main statements: `Engine.visit_induction`, what a step keeps
when the visits below keep it holds of every visit; and `Engine.visit_head`, a visit keeps the kind,
payload, context and span of a node, two kinds of nodes apart.
-/

namespace ContractTyping

namespace Rule

/-! ## The shape of a finished declaration -/

section FunctionOf

variable (config : Config) (n : Node) (expected : Option Ty) (name : Node) (middle : List Node)
  (param body : Node)

theorem functionOf_tag : (functionOf config n expected name middle param body).tag = n.tag := rfl

theorem functionOf_children :
    (functionOf config n expected name middle param body).children =
      name :: (middle ++ param :: body :: markers config name body (Ty.orVoid body.ty)) := by
  simp [functionOf, Node.adopt, Node.withType]

theorem functionOf_param :
    (functionOf config n expected name middle param body).children[middle.length + 1]? =
      some param := by
  rw [functionOf_children]
  simp

theorem functionOf_body :
    (functionOf config n expected name middle param body).children[middle.length + 2]? =
      some body := by
  rw [functionOf_children]
  simp

/-- A declaration becomes an event or is filled in. -/
theorem concludeFunction_returns {out : Node}
    (h : (concludeFunction config n expected name middle param body).Returns out) :
    endsWithEvent body = true ∧ out = eventOf n name param expected ∨
    endsWithEvent body = false ∧ out = functionOf config n expected name middle param body := by
  obtain ⟨_, _, h⟩ := h.of_bind
  split at h
  · rename_i ends
    obtain ⟨_, _, h⟩ := h.of_bind
    exact .inl ⟨ends, (Pass.returns_pure_iff.mp h).symm⟩
  · rename_i ends
    exact .inr ⟨by simpa using ends, (Pass.returns_pure_iff.mp h).symm⟩

end FunctionOf

/-! Guards are neither results nor events nor records, so the statements behind them decide. -/

theorem resultType_guards {gs : List Node} (hg : ∀ g ∈ gs, g.tag = .require) (os : List Node) :
    resultType (gs ++ os) = resultType os := by
  cases os with
  | cons o os => simp only [resultType, List.getLast?_append_cons]
  | nil =>
    rw [List.append_nil]
    unfold resultType
    cases hl : gs.getLast? with
    | none => rfl
    | some g => simp [hg g (List.mem_of_getLast? hl)]

theorem endsWithEvent_guards {b : Node} {gs os : List Node} (hg : ∀ g ∈ gs, g.tag = .require)
    (hb : b.children = gs ++ os) :
    endsWithEvent b = os.getLast?.any (·.tag == .eventStatement) := by
  unfold endsWithEvent
  rw [hb]
  cases os with
  | cons o os => rw [List.getLast?_append_cons]
  | nil =>
    rw [List.append_nil]
    cases hl : gs.getLast? with
    | none => rfl
    | some g => simp [hg g (List.mem_of_getLast? hl)]

theorem isReadOnly_guards {b : Node} {gs os : List Node} (hg : ∀ g ∈ gs, g.tag = .require)
    (hb : b.children = gs ++ os) :
    isReadOnly b = os.all (·.tag != .recordStatement) := by
  unfold isReadOnly
  rw [hb, List.all_append, List.all_eq_true.mpr fun g m => by simp [hg g m], Bool.true_and]

theorem paramBlock_returns {visit : Visitor} {raw param : Node}
    (h : (paramBlock visit raw).Returns param) :
    param.tag = .fdParam ∧
      List.Forall₂ (fun m o => (visit m none).Returns o) (params raw) param.children := by
  obtain ⟨_, _, h⟩ := h.of_bind
  obtain ⟨children, hchildren, h⟩ := h.of_bind
  cases Pass.returns_pure_iff.mp h
  exact ⟨rfl, visitAll_returns hchildren⟩

theorem bodyBlock_returns {visit : Visitor} {raw body : Node} {guards : List Node}
    (h : (bodyBlock visit raw guards).Returns body) :
    body.tag = .fdBody ∧ ∃ visited, body.children = guards ++ visited ∧
      List.Forall₂ (fun m o => (visit m none).Returns o) (statements raw) visited := by
  obtain ⟨_, _, h⟩ := h.of_bind
  obtain ⟨_, _, h⟩ := h.of_bind
  obtain ⟨visited, hvisited, h⟩ := h.of_bind
  cases Pass.returns_pure_iff.mp h
  exact ⟨rfl, visited, rfl, visitAll_returns hvisited⟩

/-- The order of the visits apart, the children of a unit come back one for one. -/
theorem unitChildren_returns {visit : Visitor} {ms os : List Node}
    (h : (unitChildren visit ms).Returns os) :
    List.Forall₂ (fun m o => (visit m (some .void)).Returns o) ms os := by
  unfold unitChildren at h
  split at h
  · rename_i hl
    cases Pass.returns_pure_iff.mp h
    rw [List.getLast?_eq_none_iff.mp hl]
    exact .nil
  · rename_i last hl
    split at h
    · obtain ⟨last', hlast, h⟩ := h.of_bind
      obtain ⟨others, hothers, h⟩ := h.of_bind
      cases Pass.returns_pure_iff.mp h
      rw [← List.dropLast_append_getLast? last hl]
      exact List.rel_append (visitAll_returns hothers) (.cons hlast .nil)
    · exact visitAll_returns h

theorem length_lt_two {ns : List Node} (h : ∀ a b rest, ns = a :: b :: rest → False) :
    ns.length < 2 := by
  rcases ns with _ | ⟨a, _ | ⟨b, rest⟩⟩
  · simp
  · simp
  · exact absurd rfl (h a b rest)

theorem getLast?_children {n name next : Node} {more : List Node}
    (hc : n.children = name :: next :: more) : n.children.getLast? = some (rawBody next more) := by
  rw [hc, List.getLast?_cons_cons]
  exact List.getLast?_eq_some_getLast _

end Rule

namespace Engine

variable {e : Engine}

theorem step_of_rule {n : Node} {r : Rule} (h : e.rule? n.tag = some r) (visit : Visitor)
    (expected : Option Ty) :
    e.step visit n expected = (do Pass.emit (.dispatch n.tag); r visit n expected) := by
  simp only [step, h]

theorem step_of_idle {n : Node} (h : e.rule? n.tag = none) (visit : Visitor)
    (expected : Option Ty) :
    e.step visit n expected = (do Pass.emit (.dispatch n.tag); return n) := by
  simp only [step, h]

theorem visit_of_rule (he : e.rules = []) {n : Node} {r : Rule} (h : e.rule? n.tag = some r)
    (expected : Option Ty) :
    e.visit n expected = (do Pass.emit (.dispatch n.tag); r e.visit n expected) := by
  rw [visit_eq_step he, step_of_rule h]

theorem visit_of_idle (he : e.rules = []) {n : Node} (h : e.rule? n.tag = none)
    (expected : Option Ty) :
    e.visit n expected = (do Pass.emit (.dispatch n.tag); return n) := by
  rw [visit_eq_step he, step_of_idle h]

/-- What a unit leaves behind, in terms of the visits of its children from an empty ledger. -/
theorem visit_unit (he : e.rules = []) {n : Node} (hn : n.tag = .source) (expected : Option Ty)
    (env : Env) :
    let run := Rule.unitChildren e.visit n.children (env.updateLedger fun _ => {})
    let out := e.visit n expected env
    out.value = { n with
      children := run.value ++ [Rule.hoistedDecls run.env.ledger.decls] }.adopt expected ∧
    out.env = run.env.updateLedger ({ · with decls := [] }) ∧
    out.log = [.dispatch .source, .enteredUnit n.children.length] ++ run.log ++
      [.hoisted run.env.ledger.decls.length] := by
  have rule : e.rule? n.tag = some Rule.source := hn ▸ rfl
  rw [visit_of_rule he rule]
  refine ⟨rfl, rfl, ?_⟩
  simp [Rule.source, Rule.takeDecls, hn]

/-- The built-in rules, each with the kind of node that it is for. -/
inductive BuiltIn (config : Config) : Tag → Rule → Prop
  | source : BuiltIn config .source Rule.source
  | block : BuiltIn config .block Rule.block
  | title : BuiltIn config .title Rule.adopting
  | importList : BuiltIn config .importList Rule.importList
  | importDecl : BuiltIn config .importDecl Rule.importDecl
  | variableDecl : BuiltIn config .variableDecl Rule.variableDecl
  | vPair : BuiltIn config .vPair Rule.pair
  | pair : BuiltIn config .pair Rule.pair
  | functionDecl : BuiltIn config .functionDecl (Rule.functionDecl config)
  | functionName : BuiltIn config .functionName Rule.functionName
  | fdParam : BuiltIn config .fdParam Rule.fdParam
  | fdPair : BuiltIn config .fdPair (Rule.fdPair config)
  | fdBody : BuiltIn config .fdBody Rule.fdBody
  | eventDecl : BuiltIn config .eventDecl Rule.adopting
  | assign : BuiltIn config .assign Rule.assign
  | returnStatement : BuiltIn config .returnStatement Rule.returnStatement
  | recordStatement : BuiltIn config .recordStatement Rule.recordStatement
  | completeStatement : BuiltIn config .completeStatement Rule.completeStatement
  | map1 : BuiltIn config .map1 (Rule.mapping 1)
  | map2 : BuiltIn config .map2 (Rule.mapping 2)
  | raw : BuiltIn config .raw Rule.raw
  | intExpr : BuiltIn config .intExpr Rule.intExpr
  | structDefine : BuiltIn config .structDefine Rule.structDefine
  | enumType : BuiltIn config .enumType (Rule.enumType config)
  | wordDefine : BuiltIn config .wordDefine Rule.finishing
  | assumeDecls : BuiltIn config .assumeDecls Rule.finishing
  | assumeDecl : BuiltIn config .assumeDecl Rule.assumeDecl

theorem builtIn_of_rule (he : e.rules = []) {t : Tag} {r : Rule} (h : e.rule? t = some r) :
    BuiltIn e.config t r := by
  cases t <;> simp only [rule?, he, List.lookup_nil, Option.some.injEq, reduceCtorEq] at h
  all_goals
    subst h
    constructor

/-- What a step keeps, when the visits below keep it, holds of every visit. -/
theorem visit_induction (he : e.rules = []) {Q : Node → Option Ty → Pass Node → Prop}
    (idle : ∀ n expected, e.rule? n.tag = none →
      Q n expected (do Pass.emit (.dispatch n.tag); return n))
    (rule : ∀ n t r, n.tag = t → BuiltIn e.config t r →
      (∀ m : Node, m.Inside n → ∀ expected, Q m expected (e.visit m expected)) →
      ∀ expected, Q n expected (do Pass.emit (.dispatch n.tag); r e.visit n expected))
    (n : Node) (expected : Option Ty) : Q n expected (e.visit n expected) := by
  induction hs : n.size using Nat.strongRecOn generalizing n expected with
  | ind size ih =>
    subst hs
    rw [visit_eq_step he]
    cases hr : e.rule? n.tag with
    | none =>
      rw [step_of_idle hr]
      exact idle n expected hr
    | some r =>
      rw [step_of_rule hr]
      exact rule n _ r rfl (builtIn_of_rule he hr) (fun m hm ex => ih m.size hm.size_lt m ex rfl)
        expected

/-! ## What a visit leaves of the node -/

end Engine

/-- Kind, payload, context and span are those of the node before. -/
structure Node.SameHead (n out : Node) : Prop where
  tag : out.tag = n.tag
  payload : out.payload = n.payload
  context : out.context = n.context
  span : out.span = n.span

/-- A node that comes back has the head of the node before, unless it is an event that was a
function, or a list of imports that was a bare string; both are typed. -/
def Node.BecomesOf (n out : Node) : Prop :=
  n.SameHead out ∨
  (out.ty.isSome = true ∧
    (n.tag = .functionDecl ∧ out.tag = .eventDecl ∨ n.tag = .importList ∧ out.tag = .importList))

/-- Only the kind of a function changes, to that of an event. -/
theorem Node.BecomesOf.tag {n out : Node} (h : n.BecomesOf out) :
    out.tag = n.tag ∨ n.tag = .functionDecl ∧ out.tag = .eventDecl := by
  rcases h with same | ⟨-, event | ⟨before, after⟩⟩
  · exact .inl same.tag
  · exact .inr event
  · exact .inl (after.trans before.symm)

theorem Node.BecomesOf.payload_of_untyped {n out : Node} (h : n.BecomesOf out)
    (ht : out.ty = none) : out.payload = n.payload := by
  rcases h with h | ⟨typed, -⟩
  · exact h.payload
  · simp [ht] at typed

namespace Rule

open Pass

variable {visit : Visitor} {n : Node} {expected : Option Ty}

theorem head_keep {children : List Node} {ty : Option Ty} {error : Option Diagnostic}
    {done : Bool} : n.BecomesOf { n with children, ty, error, done } :=
  .inl ⟨rfl, rfl, rfl, rfl⟩

theorem head_resolving {children : List Node} {name : String} {found : Ty → Pass Node}
    (h : ∀ ty, (found ty).Yields n.BecomesOf) :
    (resolving { n with children } name found).Yields n.BecomesOf := by
  refine .bind fun ty _ => ?_
  cases ty with
  | some ty => exact h ty
  | none => exact .bind fun _ _ => .pure head_keep

theorem head_importList (ht : n.tag = .importList) :
    (importList visit n expected).Yields n.BecomesOf := by
  unfold importList
  split
  · exact .pure (.inr ⟨rfl, .inr ⟨ht, ht⟩⟩)
  · exact .bind fun _ _ => .pure head_keep

theorem head_importDecl : (importDecl visit n expected).Yields n.BecomesOf := by
  unfold importDecl
  split
  · split
    · exact .bind fun _ _ => .bind fun _ _ => .pure head_keep
    · exact .pure head_keep
  · exact .pure head_keep

theorem head_pair : (pair visit n expected).Yields n.BecomesOf := by
  unfold pair
  split
  · exact head_resolving fun ty => .pure head_keep
  · exact .pure head_keep

theorem head_functionDecl {config : Config} (ht : n.tag = .functionDecl) :
    (functionDecl config visit n expected).Yields n.BecomesOf := by
  unfold functionDecl
  split
  · refine .bind fun _ _ => .bind fun _ _ => .bind fun _ _ => .bind fun _ _ => .bind fun _ _ => ?_
    refine .bind fun _ _ => ?_
    split
    · exact .bind fun _ _ => .pure (.inr ⟨rfl, .inl ⟨ht, rfl⟩⟩)
    · exact .pure head_keep
  · exact .pure head_keep

theorem head_functionName : (functionName visit n expected).Yields n.BecomesOf := by
  unfold functionName
  split
  · exact .bind fun _ _ => .pure head_keep
  · exact .pure head_keep

theorem head_fdPair {config : Config} : (fdPair config visit n expected).Yields n.BecomesOf := by
  unfold fdPair
  split
  · exact .pure head_keep
  · exact head_resolving fun ty => .bind fun _ _ => .pure head_keep

theorem head_assign : (assign visit n expected).Yields n.BecomesOf := by
  unfold assign
  split
  · exact .bind fun _ _ => .bind fun _ _ => .pure head_keep
  · exact .pure head_keep

theorem head_returnStatement : (returnStatement visit n expected).Yields n.BecomesOf := by
  unfold returnStatement
  split
  · refine .bind fun operand _ => ?_
    dsimp only
    split
    · exact .pure head_keep
    · exact head_resolving fun ty => .pure head_keep
    · exact .pure head_keep
  · exact .pure head_keep

theorem head_recordStatement : (recordStatement visit n expected).Yields n.BecomesOf := by
  unfold recordStatement
  split
  · exact .bind fun _ _ => .bind fun _ _ => .pure head_keep
  · exact .pure head_keep

theorem head_mapping {arity : Nat} : (mapping arity visit n expected).Yields n.BecomesOf := by
  unfold mapping
  split
  · exact .pure head_keep
  · refine .bind fun operand _ => ?_
    split
    · exact .bind fun _ _ => .pure head_keep
    · exact .pure head_keep

theorem head_raw : (raw visit n expected).Yields n.BecomesOf := by
  refine .bind fun ty _ => ?_
  cases ty with
  | some ty => exact .pure head_keep
  | none => exact .bind fun _ _ => .pure head_keep

theorem head_structDefine : (structDefine visit n expected).Yields n.BecomesOf := by
  unfold structDefine
  split
  · exact .bind fun _ _ => .bind fun _ _ => .bind fun _ _ => .bind fun _ _ => .pure head_keep
  · exact .pure head_keep

theorem head_assumeDecl : (assumeDecl visit n expected).Yields n.BecomesOf := by
  unfold assumeDecl
  split
  · refine .bind fun _ _ => .bind fun _ _ => .bind fun _ _ => .bind fun _ _ => .bind fun _ _ => ?_
    exact .pure head_keep
  · exact .pure head_keep

end Rule

namespace Engine

theorem visit_head {e : Engine} (he : e.rules = []) (n : Node) (expected : Option Ty) :
    (e.visit n expected).Yields n.BecomesOf := by
  refine e.visit_induction he (Q := fun m _ p => p.Yields m.BecomesOf) ?_ ?_ n expected
  · exact fun n _ _ => .bind fun _ _ => .pure (.inl ⟨rfl, rfl, rfl, rfl⟩)
  · intro n t r ht h _ expected
    refine .bind fun _ _ => ?_
    cases h with
    | source =>
      refine .bind fun _ _ => .bind fun _ _ => .bind fun _ _ => .bind fun _ _ => .bind fun _ _ => ?_
      exact .pure Rule.head_keep
    | block | fdParam | fdBody | wordDefine | assumeDecls =>
      exact .bind fun _ _ => .pure Rule.head_keep
    | title | eventDecl | completeStatement | intExpr => exact .pure Rule.head_keep
    | importList => exact Rule.head_importList ht
    | importDecl => exact Rule.head_importDecl
    | variableDecl => exact .bind fun _ _ => .bind fun _ _ => .pure Rule.head_keep
    | vPair | pair => exact Rule.head_pair
    | functionDecl => exact Rule.head_functionDecl ht
    | functionName => exact Rule.head_functionName
    | fdPair => exact Rule.head_fdPair
    | assign => exact Rule.head_assign
    | returnStatement => exact Rule.head_returnStatement
    | recordStatement => exact Rule.head_recordStatement
    | map1 | map2 => exact Rule.head_mapping
    | raw => exact Rule.head_raw
    | structDefine => exact Rule.head_structDefine
    | enumType =>
      exact .bind fun _ _ => .bind fun _ _ => .bind fun _ _ => .bind fun _ _ => .pure Rule.head_keep
    | assumeDecl => exact Rule.head_assumeDecl

end Engine

end ContractTyping
