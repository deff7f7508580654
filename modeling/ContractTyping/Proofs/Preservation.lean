import ContractTyping.Proofs.Guards
import ContractTyping.Proofs.Rewriting

/-!
Every visit rewrites: nothing that stands in a tree is lost, reordered or overwritten beyond what
`Rewrites` allows. There is one lemma for each rule, and the visits below enter them as a
hypothesis. Main statement: `Engine.rewrites_visit`.
-/

namespace ContractTyping

open Node

namespace Rule

open Pass

variable {visit : Visitor} {n : Node} {expected : Option Ty}

/-- Functions, assumptions and lists of imports are rewritten in ways of their own. -/
def Plain (t : Tag) : Prop := t ≠ .functionDecl ∧ t ≠ .assumeDecl ∧ t ≠ .importList

/-- Nodes of other kinds to which nothing need be added. -/
def Simple (t : Tag) : Prop := Plain t ∧ Added t []

/-- But for assumptions with a value, all children stand where the node does. -/
theorem readings_outside (few : n.tag = .assumeDecl → n.children.length < 2) :
    n.readings false = n.children.map fun c => (false, c) := by
  unfold Node.readings
  split
  · rename_i tag hc
    have short := few tag
    rw [hc, List.length_cons, List.length_cons] at short
    omega
  · rfl

theorem keepsHead_of_sameHead {out : Node} (h : n.SameHead out) : n.KeepsHead false out :=
  ⟨h.tag, h.context, h.span, by simpa using h.payload⟩

theorem rewrites_of_follows {out : Node} {kept added : List Node} (plain : Plain n.tag)
    (head : n.SameHead out) (children : out.children = kept ++ added)
    (each : Follows (n.children.map fun c => (false, c)) kept) (synthesized : Added n.tag added) :
    Rewrites false n out := by
  refine .node (fun h => plain.1 h.1) (fun h => plain.2.2 h.1) (keepsHead_of_sameHead head) children
    ?_ synthesized
  rwa [readings_outside fun h => absurd h plain.2.1]

/-- The kinds with a word of their own about what comes back. -/
def special : List Tag := [.functionDecl, .assumeDecl, .importList, .source, .enumType]

theorem simple_of {t : Tag} (h : t ∉ special) : Simple t := by
  simp only [special, List.mem_cons, List.not_mem_nil, or_false, not_or] at h
  refine ⟨⟨h.1, h.2.1, h.2.2.1⟩, ?_⟩
  unfold Added
  split <;> simp_all

/-- A node that comes back with the children it had. -/
theorem rewrites_unvisited {out : Node} (ordinary : ¬ n.IsFunction) (filled : ¬ n.IsBareImport)
    (assumption : n.tag = .assumeDecl → n.children.length < 2) (head : n.SameHead out)
    (children : out.children = n.children) (nothing : Added n.tag []) : Rewrites false n out := by
  have each := Follows.refl n.children
  rw [← readings_outside assumption] at each
  exact .node ordinary filled (keepsHead_of_sameHead head)
    (children.trans (List.append_nil _).symm) each nothing

/-- Goes on with the type of a name, or fails on the node. -/
theorem rewrites_resolving {m : Node} {name : String} {found : Ty → Pass Node}
    (failed : ∀ error, Rewrites false n (m.fail error))
    (h : ∀ ty, (found ty).Yields (Rewrites false n)) :
    (resolving m name found).Yields (Rewrites false n) := by
  refine .bind fun ty _ => ?_
  cases ty with
  | some ty => exact h ty
  | none => exact .bind fun _ _ => .pure (failed _)

section Unvisited

variable (simple : Simple n.tag)

include simple

theorem rewrites_same {out : Node} (head : n.SameHead out) (children : out.children = n.children) :
    Rewrites false n out :=
  rewrites_unvisited (fun h => simple.1.1 h.1) (fun h => simple.1.2.2 h.1)
    (fun h => absurd h simple.1.2.1) head children simple.2

theorem rewrites_fail (error : Diagnostic) : Rewrites false n (n.fail error) :=
  rewrites_same simple ⟨rfl, rfl, rfl, rfl⟩ rfl

theorem rewrites_withType (ty : Option Ty) : Rewrites false n (n.withType ty) :=
  rewrites_same simple ⟨rfl, rfl, rfl, rfl⟩ rfl

theorem rewrites_importDecl : (importDecl visit n expected).Yields (Rewrites false n) := by
  unfold importDecl
  split
  · split
    · exact .bind fun _ _ => .bind fun _ _ => .pure (rewrites_withType simple _)
    · exact .pure (rewrites_fail simple _)
  · exact .pure (rewrites_fail simple _)

theorem rewrites_functionName : (functionName visit n expected).Yields (Rewrites false n) := by
  unfold functionName
  split
  · exact .bind fun _ _ => .pure (rewrites_withType simple _)
  · exact .pure (rewrites_withType simple _)

theorem rewrites_raw : (raw visit n expected).Yields (Rewrites false n) := by
  refine .bind fun ty _ => ?_
  cases ty with
  | some ty => exact .pure (rewrites_withType simple _)
  | none => exact .bind fun _ _ => .pure (rewrites_withType simple _)

/-- The name in second place gets a type from outside. -/
theorem rewrites_pair : (pair visit n expected).Yields (Rewrites false n) := by
  unfold pair
  split
  · rename_i first name rest hc
    refine rewrites_resolving (rewrites_fail simple) fun ty => .pure ?_
    refine rewrites_of_follows simple.1 ⟨rfl, rfl, rfl, rfl⟩ (List.append_nil _).symm ?_ simple.2
    rw [hc]
    exact .same (.kept _ (Follows.refl rest))
  · exact .pure (rewrites_fail simple _)

end Unvisited

theorem rewrites_fdPair (config : Config) (ht : n.tag = .fdPair) :
    (fdPair config visit n expected).Yields (Rewrites false n) := by
  have simple : Simple n.tag := by simp [Simple, Plain, Added, ht]
  unfold fdPair
  split
  · exact .pure (rewrites_fail simple _)
  · rename_i name hl
    refine rewrites_resolving (rewrites_fail simple) fun ty => .bind fun _ _ => .pure ?_
    have marker : Added n.tag (memoryMarker ty) := by
      unfold memoryMarker
      split <;> simp [Added, ht, Node.withContext, Node.leaf]
    have each : Follows (n.children.map fun c => (false, c))
        (n.children.dropLast ++ [name.withType (some ty)]) := by
      have split := List.dropLast_append_getLast? name hl
      nth_rewrite 1 [← split]
      rw [List.map_append]
      exact (Follows.refl _).append (.kept _ .nil)
    refine rewrites_of_follows simple.1 ⟨rfl, rfl, rfl, rfl⟩ ?_ each marker
    simp

section Below

variable (below : ∀ m : Node, m.Inside n → ∀ ex, (visit m ex).Yields (Rewrites false m))

include below

theorem rewritesEach_of_returns {ms os : List Node} (inside : ∀ m ∈ ms, m.Inside n)
    (h : List.Forall₂ (fun m o => (visit m expected).Returns o) ms os) :
    RewritesEach false ms os := by
  induction h with
  | nil => exact .nil
  | cons one _ ih =>
    refine .cons (below _ (inside _ List.mem_cons_self) _ _ one) (ih fun m hm => ?_)
    exact inside m (List.mem_cons_of_mem _ hm)

theorem follows_of_returns {ms os : List Node} (sub : ms ⊆ n.children)
    (h : (visitAll visit ms expected).Returns os) : Follows (ms.map fun c => (false, c)) os :=
  RewritesEach.follows (rewritesEach_of_returns below (fun _ hm => inside_of_child (sub hm))
    (visitAll_returns h))

/-- Visiting all children and returning the node with them. -/
theorem rewrites_each (simple : Simple n.tag) (rebuild : List Node → Node)
    (h : ∀ os, n.SameHead (rebuild os) ∧ (rebuild os).children = os) :
    Pass.Yields (do let os ← visitAll visit n.children expected; return rebuild os)
      (Rewrites false n) := by
  refine .bind fun os hos => .pure ?_
  have each := follows_of_returns below (List.Subset.refl _) hos
  have children := (h os).2.trans (List.append_nil os).symm
  exact rewrites_of_follows simple.1 (h os).1 children each simple.2

theorem rewrites_source (ht : n.tag = .source) :
    (source visit n expected).Yields (Rewrites false n) := by
  have plain : Plain n.tag := by simp [Plain, ht]
  refine .bind fun _ _ => .bind fun _ _ => .bind fun os hos => ?_
  refine .bind fun decls _ => .bind fun _ _ => .pure ?_
  have each := rewritesEach_of_returns below (fun _ hm => inside_of_child hm)
    (unitChildren_returns hos)
  refine rewrites_of_follows plain ⟨rfl, rfl, rfl, rfl⟩ rfl each.follows ?_
  simp [Added, ht, hoistedDecls]

theorem rewrites_importList (ht : n.tag = .importList) :
    (importList visit n expected).Yields (Rewrites false n) := by
  unfold importList
  split
  · rename_i payload hc hp
    exact .pure (.bareImport ⟨ht, hc, by simp [hp]⟩ rfl rfl rfl rfl rfl)
  · rename_i filled
    refine .bind fun os hos => .pure ?_
    have each := follows_of_returns below (List.Subset.refl _) hos
    have bare : ¬ n.IsBareImport := by
      rintro ⟨-, hc, hp⟩
      obtain ⟨s, hs⟩ := Option.isSome_iff_exists.mp hp
      exact filled s hc hs
    have head : n.KeepsHead false ({ n with children := os }.adopt expected) :=
      keepsHead_of_sameHead ⟨rfl, rfl, rfl, rfl⟩
    rw [← readings_outside (by simp [ht])] at each
    exact .node (by simp [IsFunction, ht]) bare head (List.append_nil _).symm each
      (by simp [Added, ht])

theorem rewrites_variableDecl (ht : n.tag = .variableDecl) :
    (variableDecl visit n expected).Yields (Rewrites false n) := by
  have plain : Plain n.tag := by simp [Plain, ht]
  refine .bind fun os hos => .bind fun imports _ => .pure ?_
  have each := follows_of_returns below (List.Subset.refl _) hos
  refine rewrites_of_follows plain ⟨rfl, rfl, rfl, rfl⟩ rfl each ?_
  simp [Added, ht, Import.toPair]

theorem rewrites_assign (ht : n.tag = .assign) :
    (assign visit n expected).Yields (Rewrites false n) := by
  have simple : Simple n.tag := by simp [Simple, Plain, Added, ht]
  unfold assign
  split
  · rename_i target value rest hc
    refine .bind fun target' htarget => .bind fun value' hvalue => .pure ?_
    have first := below target (inside_of_child (by simp [hc])) _ target' htarget
    have second := below value (inside_of_child (by simp [hc])) _ value' hvalue
    refine rewrites_of_follows simple.1 ⟨rfl, rfl, rfl, rfl⟩ (List.append_nil _).symm ?_ simple.2
    rw [hc]
    exact .visited first (.visited second (Follows.refl rest))
  · exact .pure (rewrites_fail simple _)

theorem rewrites_returnStatement (ht : n.tag = .returnStatement) :
    (returnStatement visit n expected).Yields (Rewrites false n) := by
  have simple : Simple n.tag := by simp [Simple, Plain, Added, ht]
  unfold returnStatement
  split
  · rename_i operand rest hc
    refine .bind fun operand' hoperand => ?_
    have one := below operand (inside_of_child (by simp [hc])) _ operand' hoperand
    have each : Follows (n.children.map fun c => (false, c)) (operand' :: rest) := by
      rw [hc]
      exact .visited one (Follows.refl rest)
    have rebuilt : ∀ out : Node, n.SameHead out → out.children = operand' :: rest →
        Rewrites false n out := fun out head children =>
      rewrites_of_follows simple.1 head (children.trans (List.append_nil _).symm) each simple.2
    dsimp only
    split
    · exact .pure (rebuilt _ ⟨rfl, rfl, rfl, rfl⟩ rfl)
    · refine rewrites_resolving (fun _ => rebuilt _ ⟨rfl, rfl, rfl, rfl⟩ rfl) fun ty => ?_
      exact .pure (rebuilt _ ⟨rfl, rfl, rfl, rfl⟩ rfl)
    · exact .pure (rebuilt _ ⟨rfl, rfl, rfl, rfl⟩ rfl)
  · exact .pure (rewrites_fail simple _)

theorem rewrites_recordStatement (ht : n.tag = .recordStatement) :
    (recordStatement visit n expected).Yields (Rewrites false n) := by
  have simple : Simple n.tag := by simp [Simple, Plain, Added, ht]
  unfold recordStatement
  split
  · rename_i target event rest hc
    refine .bind fun target' htarget => .bind fun display _ => .pure ?_
    have one := below target (inside_of_child (by simp [hc])) _ target' htarget
    refine rewrites_of_follows simple.1 ⟨rfl, rfl, rfl, rfl⟩ rfl ?_ ?_
    · rw [hc]
      exact .visited one (Follows.refl (event :: rest))
    · cases display <;> simp [Added, ht, Node.leaf, Node.withContext]
  · exact .pure (rewrites_fail simple _)

/-- Indices come back visited, or as they were if the operand is no mapping. -/
theorem rewrites_mapping {arity : Nat} (simple : Simple n.tag) :
    (mapping arity visit n expected).Yields (Rewrites false n) := by
  unfold mapping
  split
  · exact .pure (rewrites_fail simple _)
  · rename_i operand rest hd
    have hc : n.children = n.children.take arity ++ operand :: rest := by
      rw [← hd, List.take_append_drop]
    have rebuilt : ∀ (indices : List Node) (operand' out : Node), n.SameHead out →
        out.children = indices ++ operand' :: rest → Rewrites false operand operand' →
        Follows ((n.children.take arity).map fun c => (false, c)) indices →
        Rewrites false n out := by
      intro indices operand' out head children one each
      refine rewrites_of_follows simple.1 head (children.trans (List.append_nil _).symm) ?_ simple.2
      rw [hc, List.map_append, List.map_cons]
      exact each.append (.visited one (Follows.refl rest))
    refine .bind fun operand' hoperand => ?_
    have inside := inside_of_child (hc ▸ List.mem_append_right _ List.mem_cons_self)
    have one := below operand inside _ operand' hoperand
    split
    · refine .bind fun indices hindices => .pure ?_
      have each := follows_of_returns below (List.take_subset arity _) hindices
      exact rebuilt indices operand' _ ⟨rfl, rfl, rfl, rfl⟩ rfl one each
    · exact .pure (rebuilt _ operand' _ ⟨rfl, rfl, rfl, rfl⟩ rfl one (Follows.refl _))

theorem rewrites_structDefine (ht : n.tag = .structDefine) :
    (structDefine visit n expected).Yields (Rewrites false n) := by
  have simple : Simple n.tag := by simp [Simple, Plain, Added, ht]
  unfold structDefine
  split
  · rename_i name fields hc
    refine .bind fun os hos => .bind fun _ _ => .bind fun _ _ => .bind fun _ _ => .pure ?_
    have each := follows_of_returns below (hc ▸ List.subset_cons_self name fields) hos
    refine rewrites_of_follows simple.1 ⟨rfl, rfl, rfl, rfl⟩ (List.append_nil _).symm ?_ simple.2
    rw [hc]
    exact each.same
  · exact .pure (rewrites_fail simple _)

theorem rewrites_enumType (config : Config) (ht : n.tag = .enumType) :
    (enumType config visit n expected).Yields (Rewrites false n) := by
  have plain : Plain n.tag := by simp [Plain, ht]
  refine .bind fun os hos => .bind fun generated _ => .bind fun _ _ => .bind fun _ _ => .pure ?_
  have each := follows_of_returns below (List.Subset.refl _) hos
  refine rewrites_of_follows plain ⟨rfl, rfl, rfl, rfl⟩ rfl each ?_
  simp [Added, ht, Node.leaf, Node.withContext]

/-- The value is visited and has its widths fixed afterwards. -/
theorem rewrites_assumeDecl (ht : n.tag = .assumeDecl) :
    (assumeDecl visit n expected).Yields (Rewrites false n) := by
  have ordinary : ¬ n.IsFunction := by simp [IsFunction, ht]
  have filled : ¬ n.IsBareImport := by simp [IsBareImport, ht]
  have nothing : Added n.tag [] := by simp [Added, ht]
  unfold assumeDecl
  split
  · rename_i name value rest hc
    refine .bind fun name' hname => .bind fun value' hvalue => .bind fun rest' hrest => ?_
    refine .bind fun _ _ => .bind fun _ _ => .pure ?_
    have first := below name (inside_of_child (by simp [hc])) _ name' hname
    have second := below value (inside_of_child (by simp [hc])) _ value' hvalue
    have others := follows_of_returns below (fun c h => by simp [hc, h]) hrest
    refine .node ordinary filled (keepsHead_of_sameHead ⟨rfl, rfl, rfl, rfl⟩)
      (List.append_nil _).symm ?_ nothing
    have readings : n.readings false =
        (false, name) :: (true, value) :: rest.map fun c => (false, c) := by
      unfold Node.readings
      rw [ht, hc]
    rw [readings]
    exact .visited first (.visited second.normalizeValue others)
  · rename_i few
    exact .pure (rewrites_unvisited ordinary filled (fun _ => length_lt_two few)
      ⟨rfl, rfl, rfl, rfl⟩ rfl nothing)

end Below

/-! ## Functions -/

theorem map_readAs_false (ns : List Node) : ns.map (readAs false) = ns := by
  induction ns with
  | nil => rfl
  | cons n ns ih => rw [List.map_cons, ih, readAs, if_neg Bool.false_ne_true]

theorem paramBlock_blockOf {raw param : Node} (h : (paramBlock visit raw).Returns param) :
    raw.BlockOf .fdParam "param" param := by
  obtain ⟨_, _, h⟩ := h.of_bind
  obtain ⟨_, _, h⟩ := h.of_bind
  cases returns_pure_iff.mp h
  exact ⟨rfl, rfl, rfl, rfl⟩

theorem bodyBlock_blockOf {raw body : Node} {guards : List Node}
    (h : (bodyBlock visit raw guards).Returns body) : raw.BlockOf .fdBody "body" body := by
  obtain ⟨_, _, h⟩ := h.of_bind
  obtain ⟨_, _, h⟩ := h.of_bind
  obtain ⟨_, _, h⟩ := h.of_bind
  cases returns_pure_iff.mp h
  exact ⟨rfl, rfl, rfl, rfl⟩

theorem takeGuards_tag (config : Config) :
    (takeGuards config).Yields fun guards => ∀ g ∈ guards, g.tag = .require :=
  .bind fun _ _ => .bind fun _ _ => .bind fun _ _ =>
    .pure (List.forall_mem_map.mpr fun _ _ => rfl)

theorem markers_tags (config : Config) (name body : Node) (returns : Ty) :
    ((markers config name body returns).map Node.tag).Sublist
      [.returnType, .notConstructor, .viewType] := by
  unfold markers
  split <;> split
  · simp
  · split <;> simp [Node.leaf, Node.withContext]
  · simp [Node.leaf, Node.withContext, Node.withType]
  · split <;> simp [Node.leaf, Node.withContext, Node.withType]

theorem params_eq_slotParams (raw : Node) : params raw = raw.slotParams := by
  unfold params slotParams
  congr 1

theorem endsWithEvent_iff {raw body : Node} {guards visited : List Node}
    (children : body.children = guards ++ visited) (guarded : ∀ g ∈ guards, g.tag = .require)
    (each : RewritesEach false raw.bodyStatements visited) :
    endsWithEvent body = true ↔ raw.EndsInEvent := by
  have last : endsWithEvent body = true ↔
      ∃ last, visited.getLast? = some last ∧ last.tag = .eventStatement := by
    rw [endsWithEvent_guards guarded children]
    cases visited.getLast? with
    | some last => simp
    | none => simp
  exact last.trans each.endsInEvent_iff

theorem rewrites_functionDecl (config : Config) (ht : n.tag = .functionDecl)
    (below : ∀ m : Node, m.Inside n → ∀ ex, (visit m ex).Yields (Rewrites false m)) :
    (functionDecl config visit n expected).Yields (Rewrites false n) := by
  unfold functionDecl
  split
  · rename_i first next more hc
    have hr := rawBody_mem_children hc
    have layout : n.children = first :: ((next :: more).dropLast ++ [rawBody next more]) := by
      rw [hc, rawBody, List.dropLast_append_getLast]
    refine .bind fun name hname => .bind fun param hparam => .bind fun guards hguards => ?_
    refine .bind fun _ _ => .bind fun body hbody => ?_
    have named := below first (inside_of_child (by simp [hc])) _ name hname
    have guarded := takeGuards_tag config guards hguards
    have params : RewritesEach false (rawBody next more).slotParams param.children := by
      rw [← params_eq_slotParams]
      exact rewritesEach_of_returns below (fun m => inside_of_mem_params hr)
        (paramBlock_returns hparam).2
    obtain ⟨-, visited, children, returned⟩ := bodyBlock_returns hbody
    have each := rewritesEach_of_returns below (fun m => inside_of_mem_statements hr) returned
    rw [statements_eq_filter] at each
    have ends := endsWithEvent_iff children guarded each
    -- What the raw body ends in says which of the two the declaration becomes.
    intro out hout
    rcases concludeFunction_returns _ _ _ _ _ _ _ hout with ⟨event, rfl⟩ | ⟨noEvent, rfl⟩
    · exact .event ht layout (ends.mp event) rfl rfl rfl rfl rfl named (paramBlock_blockOf hparam)
        params
    · have others : ¬ (rawBody next more).EndsInEvent := by
        rw [← ends, noEvent]
        exact Bool.false_ne_true
      have marked := markers_tags config name body (Ty.orVoid body.ty)
      refine .function ht layout others ⟨rfl, rfl, rfl, rfl⟩ ?_ named (paramBlock_blockOf hparam)
        params (bodyBlock_blockOf hbody) children guarded each marked
      rw [functionOf_children, map_readAs_false]
  · rename_i few
    have short := length_lt_two few
    refine .pure (rewrites_unvisited ?_ ?_ ?_ ⟨rfl, rfl, rfl, rfl⟩ rfl (by simp [Added, ht]))
    · exact fun h => absurd h.2 (by omega)
    · simp [IsBareImport, ht]
    · exact fun _ => short

end Rule

namespace Engine

/-- **A visit rewrites.** -/
theorem rewrites_visit {e : Engine} (he : e.rules = []) (n : Node) (expected : Option Ty) :
    (e.visit n expected).Yields (Rewrites false n) := by
  refine e.visit_induction he (Q := fun m _ p => p.Yields (Rewrites false m)) ?_ ?_ n expected
  · intro n _ idle
    refine .bind fun _ _ => .pure ?_
    have simple : n.tag ∉ Rule.special := by
      intro h
      simp only [Rule.special, List.mem_cons, List.not_mem_nil, or_false] at h
      rcases h with h | h | h | h | h <;> simp [rule?, h] at idle
    exact Rule.rewrites_same (Rule.simple_of simple) ⟨rfl, rfl, rfl, rfl⟩ rfl
  · intro n t r ht h below expected
    refine .bind fun _ _ => ?_
    have simple : t ∉ Rule.special → Rule.Simple n.tag := fun h => ht ▸ Rule.simple_of h
    cases h with
    | source => exact Rule.rewrites_source below ht
    | block | wordDefine | assumeDecls | fdParam | fdBody =>
      refine Rule.rewrites_each below (simple (by decide)) _ fun os => ?_
      exact ⟨⟨rfl, rfl, rfl, rfl⟩, rfl⟩
    | title | eventDecl | completeStatement | intExpr =>
      exact .pure (Rule.rewrites_withType (simple (by decide)) _)
    | importList => exact Rule.rewrites_importList below ht
    | importDecl => exact Rule.rewrites_importDecl (simple (by decide))
    | variableDecl => exact Rule.rewrites_variableDecl below ht
    | vPair | pair => exact Rule.rewrites_pair (simple (by decide))
    | functionDecl => exact Rule.rewrites_functionDecl e.config ht below
    | functionName =>
      exact Rule.rewrites_functionName (simple (by decide))
    | fdPair => exact Rule.rewrites_fdPair e.config ht
    | assign => exact Rule.rewrites_assign below ht
    | returnStatement => exact Rule.rewrites_returnStatement below ht
    | recordStatement => exact Rule.rewrites_recordStatement below ht
    | map1 | map2 =>
      exact Rule.rewrites_mapping below (simple (by decide))
    | raw => exact Rule.rewrites_raw (simple (by decide))
    | structDefine => exact Rule.rewrites_structDefine below ht
    | enumType => exact Rule.rewrites_enumType below e.config ht
    | assumeDecl => exact Rule.rewrites_assumeDecl below ht

/-- What is visited in any environment, under any expectation, comes back as it was but for the
rewriting that its kind allows. -/
theorem visit_preserves_structure (config : Config) (n : Node) (expected : Option Ty) (env : Env) :
    Rewrites false n (visit { config } n expected env).value :=
  rewrites_visit rfl n expected _ (Pass.returns_self _ env)

end Engine

end ContractTyping
