import ContractTyping.Proofs.Closure

/-!
Guards of functions. While parameters are visited, the typed names of addresses wait in the ledger;
the function takes them out before it visits its statements. Main statements: `Engine.idle_visit`,
after a visit nothing waits if nothing waited before; and `Rule.functionDecl_guards`, a function
guards its own address parameters, in order.
-/

namespace ContractTyping

namespace Node

/-- Parameters stand in slots, and a slot starts with a parameter. -/
def Slotted (n : Node) : Prop :=
  n.All fun m => (∀ c ∈ m.children, c.tag = .fdPair → m.tag = .functionParam) ∧
    (m.tag = .functionParam → ∀ c ∈ m.children.head?, c.tag = .fdPair)

/-- No function has a slot in place of its raw body. -/
def ProperBodies (n : Node) : Prop :=
  n.All fun m => m.tag = .functionDecl → ∀ raw ∈ m.children.getLast?, raw.tag ≠ .functionParam

instance (n : Node) : Decidable n.Slotted := inferInstanceAs (Decidable (n.All _))

instance (n : Node) : Decidable n.ProperBodies := inferInstanceAs (Decidable (n.All _))

/-- Nothing is annotated, and parameters stand only where they belong. -/
structure WellFormed (n : Node) : Prop where
  unannotated : n.Unannotated
  slotted : n.Slotted
  properBodies : n.ProperBodies

theorem WellFormed.inside {n m : Node} (h : n.WellFormed) (hm : m.Inside n) : m.WellFormed :=
  ⟨h.unannotated.inside hm, h.slotted.inside hm, h.properBodies.inside hm⟩

theorem WellFormed.child_tag {n c : Node} (h : n.WellFormed) (ht : n.tag ≠ .functionParam)
    (hc : c ∈ n.children) : c.tag ≠ .fdPair :=
  fun hp => ht (h.slotted.self.1 c hc hp)

end Node

namespace Rule

variable {n name next : Node} {more : List Node}

/-- The parameters of a function are of the kind that waits for guards. -/
theorem tag_of_mem_params (h : n.WellFormed) {raw m : Node} (hr : raw ∈ n.children)
    (hm : m ∈ params raw) : m.tag = .fdPair := by
  obtain ⟨slot, hs, head⟩ := List.mem_filterMap.mp hm
  obtain ⟨child, hslot⟩ := List.mem_filter.mp hs
  have inside := (Node.inside_of_child hr).child child
  exact (h.slotted.inside inside).self.2 (by simpa [isParam] using hslot) m head

theorem statements_eq_filter (raw : Node) :
    statements raw = raw.children.filter fun c => c.tag ≠ .functionParam := by
  refine List.filter_congr fun c _ => ?_
  by_cases h : c.tag = .functionParam
  · simp [isParam, h]
  · simp [isParam, h]

/-- The statements of a function are of other kinds. -/
theorem tag_of_mem_statements (h : n.WellFormed) (ht : n.tag = .functionDecl)
    (hc : n.children = name :: next :: more) {m : Node}
    (hm : m ∈ statements (rawBody next more)) : m.tag ≠ .fdPair := by
  have last := getLast?_children hc
  have body := h.inside (Node.inside_of_child (rawBody_mem_children hc))
  exact body.child_tag (h.properBodies.self ht _ last) (List.mem_filter.mp hm).1

end Rule

/-! ## Between functions nothing waits -/

/-- No parameter waits for a guard. -/
def Env.Idle (env : Env) : Prop := env.ledger.unguarded = []

namespace Pass

/-- Nothing waits afterwards if nothing waited before. -/
def KeepsIdle (p : Pass α) : Prop := p.Triple Env.Idle fun _ => Env.Idle

theorem KeepsIdle.bind {p : Pass α} {f : α → Pass β} (hp : p.KeepsIdle)
    (hf : ∀ a, p.Returns a → (f a).KeepsIdle) : (p >>= f).KeepsIdle :=
  Triple.bind hp hf

theorem KeepsIdle.updateLedger {f : Ledger → Ledger}
    (h : ∀ l, l.unguarded = [] → (f l).unguarded = []) : (Pass.updateLedger f).KeepsIdle :=
  Triple.updateLedger fun env => h env.ledger

theorem KeepsIdle.closed (names : List String) : Closed names fun _ p => p.KeepsIdle where
  pure _ _ h := h
  bind := KeepsIdle.bind
  emitAll _ _ h := h
  readLedger _ _ h := h
  lookup? _ _ _ h := h

end Pass

namespace Rule

open Pass

variable {visit : Visitor} {n : Node}

theorem takeGuards_idle (config : Config) :
    (takeGuards config).Triple (fun _ => True) fun _ => Env.Idle :=
  fun _ _ => rfl

/-- Whatever waits after the parameters is taken out before the statements. -/
theorem idle_functionDecl (config : Config) (hn : n.WellFormed) (ht : n.tag = .functionDecl)
    (below : ∀ m : Node, m.Inside n → m.tag ≠ .fdPair → ∀ ex, (visit m ex).KeepsIdle)
    (expected : Option Ty) : (functionDecl config visit n expected).KeepsIdle := by
  unfold functionDecl
  split
  · rename_i name next more hc
    have closed := KeepsIdle.closed []
    have body : ∀ guards, (bodyBlock visit (rawBody next more) guards).KeepsIdle :=
      closed_bodyBlock closed fun m hm =>
        below m (inside_of_mem_statements (rawBody_mem_children hc) hm)
          (tag_of_mem_statements hn ht hc hm) none
    have rest : ∀ name' middle param guards,
        KeepsIdle (do
          announceGuards { n with children := name' :: middle }.text guards
          let body ← bodyBlock visit (rawBody next more) guards
          concludeFunction config n expected name' middle param body) := by
      intro name' middle param guards
      refine (closed.emitAll _).bind fun _ _ => ?_
      refine (body guards).bind fun body' _ => ?_
      exact closed_concludeFunction closed expected (fun _ _ _ h => h) config _ _ _ _
    refine Triple.bind (Q := fun _ _ => True) (fun _ _ => trivial) fun name' _ => ?_
    refine Triple.bind (Q := fun _ _ => True) (fun _ _ => trivial) fun param _ => ?_
    exact (takeGuards_idle config).bind fun guards _ => rest name' _ param guards
  · exact Triple.pure fun _ h => h

end Rule

namespace Engine

variable {e : Engine}

open Pass

theorem permits_idle {t : Tag} (ht : t ≠ .fdPair) : Permits (fun _ p => p.KeepsIdle) t := by
  have bind : ∀ name ty, (bindName name ty).KeepsIdle := fun _ _ _ h => h
  unfold Permits
  split
  · exact ⟨KeepsIdle.updateLedger fun _ _ => rfl, KeepsIdle.updateLedger fun _ h => h⟩
  · exact fun _ => KeepsIdle.updateLedger fun _ h => h
  · exact fun _ _ => KeepsIdle.updateLedger fun _ h => h
  · exact ⟨bind, fun _ => KeepsIdle.updateLedger fun _ h => h⟩
  · exact fun _ => KeepsIdle.updateLedger fun _ h => h
  · exact absurd rfl ht
  · exact ⟨bind, KeepsIdle.updateLedger fun _ _ => rfl⟩
  · exact bind
  · trivial

/-- **Between functions nothing waits.** -/
theorem idle_visit (he : e.rules = []) (n : Node) (expected : Option Ty) (hn : n.WellFormed)
    (ht : n.tag ≠ .fdPair) : (e.visit n expected).KeepsIdle := by
  refine e.visit_induction he (Q := fun m _ p => m.WellFormed → m.tag ≠ .fdPair → p.KeepsIdle)
    ?_ ?_ n expected hn ht
  · intro n _ _ _ _
    exact fun _ h => h
  · intro n t r ht h inside expected hn hpair
    have below : ∀ m : Node, m.Inside n → m.tag ≠ .fdPair → ∀ ex, (e.visit m ex).KeepsIdle :=
      fun m hm hp ex => inside m hm ex (hn.inside hm) hp
    refine Rule.closed_emit (KeepsIdle.closed []) _ ?_
    by_cases hf : t = .functionDecl
    · subst hf
      cases h
      exact Rule.idle_functionDecl e.config hn ht below expected
    · have slot : n.tag ≠ .functionParam := by
        rintro hs
        rw [← ht, hs] at h
        cases h
      have permits := permits_idle (ht ▸ hpair)
      refine closed_rule (KeepsIdle.closed n.texts) h permits (List.Subset.refl _)
        (visit_head he) hf ?_ expected
      exact fun c hc => below c (Node.inside_of_child hc) (hn.child_tag slot hc)

end Engine

/-! ## A function guards its own parameters -/

/-- A visited parameter that has the type of addresses. -/
def Node.isAddressParam (n : Node) : Bool :=
  n.tag == .fdPair && n.ty == some (.named "address")

/-- The nodes that wait are the typed names of the address parameters visited so far. -/
def Awaited (config : Config) (params waiting : List Node) : Prop :=
  if config.synthesizeGuards then
    List.Forall₂ (fun o p => o.children.getLast? = some p ∧ p.ty = some (.named "address"))
      (params.filter Node.isAddressParam) waiting
  else waiting = []

theorem Awaited.skip {config : Config} {params waiting : List Node}
    (h : Awaited config params waiting) {o : Node} (ho : o.ty ≠ some (.named "address")) :
    Awaited config (params ++ [o]) waiting := by
  have out : o.isAddressParam = false := by simp [Node.isAddressParam, ho]
  simpa [Awaited, List.filter_append, out] using h

theorem Awaited.add {config : Config} {params waiting : List Node}
    (h : Awaited config params waiting) (hs : config.synthesizeGuards = true) {o p : Node}
    (ht : o.tag = .fdPair) (ho : o.ty = some (.named "address"))
    (hp : o.children.getLast? = some p) (hty : p.ty = some (.named "address")) :
    Awaited config (params ++ [o]) (waiting ++ [p]) := by
  have counts : o.isAddressParam = true := by simp [Node.isAddressParam, ht, ho]
  simp only [Awaited, hs, ↓reduceIte, List.filter_append, List.filter_cons, counts,
    List.filter_nil] at h ⊢
  exact List.rel_append h (.cons ⟨hp, hty⟩ .nil)

theorem Awaited.off {config : Config} {params waiting : List Node}
    (h : Awaited config params waiting) (hs : config.synthesizeGuards = false) (o : Node) :
    Awaited config (params ++ [o]) waiting := by
  simpa [Awaited, hs] using h

namespace Rule

open Pass

variable {visit : Visitor}

/-- The name of a parameter waits if the parameter is an address and guards are switched on. -/
theorem awaitGuard_awaits (config : Config) {ty : Ty} {name o : Node} (ht : o.tag = .fdPair)
    (ho : o.ty = some ty) (hn : name.ty = some ty)
    (hl : ty = .named "address" → o.children.getLast? = some name) (params : List Node) :
    (awaitGuard config ty name).Triple (fun env => Awaited config params env.ledger.unguarded)
      fun _ env => Awaited config (params ++ [o]) env.ledger.unguarded := by
  unfold awaitGuard
  by_cases haddr : ty = .named "address"
  · subst haddr
    cases hs : config.synthesizeGuards
    · exact fun _ h => Awaited.off h hs o
    · exact fun _ h => Awaited.add h hs ht ho (hl rfl) hn
  · have unnamed : ty.isNamed "address" = false := by
      simpa using fun h => haddr (Ty.isNamed_iff.mp h)
    simp only [unnamed, Bool.false_and, Bool.false_eq_true, ↓reduceIte]
    exact Triple.pure fun _ h => h.skip fun same => haddr (Option.some.inj (ho ▸ same))

theorem fdPair_awaits (config : Config) {m : Node} (hm : m.Blank) (ht : m.tag = .fdPair)
    (expected : Option Ty) (params : List Node) :
    (fdPair config visit m expected).Triple
      (fun env => Awaited config params env.ledger.unguarded)
      fun o env => Awaited config (params ++ [o]) env.ledger.unguarded := by
  have untyped : m.ty ≠ some (.named "address") := by simp [hm.1]
  unfold fdPair
  split
  · exact Triple.pure fun _ h => h.skip untyped
  · rename_i name hl
    refine Triple.bind (Q := fun _ env => Awaited config params env.ledger.unguarded)
      (fun _ h => h) fun found _ => ?_
    cases found with
    | none => exact (Triple.emit _).bind fun _ _ => Triple.pure fun _ h => h.skip untyped
    | some ty =>
      refine (awaitGuard_awaits config (o := { m with
        children := m.children.dropLast ++ name.withType (some ty) :: memoryMarker ty
        ty := some ty }) ht rfl rfl ?_ params).bind fun _ _ => Triple.pure fun _ h => h
      rintro rfl
      simp [memoryMarker, Ty.isNamed]

theorem paramBlock_awaits (config : Config) {raw : Node}
    (h : ∀ m ∈ params raw, ∀ done,
      (visit m none).Triple (fun env => Awaited config done env.ledger.unguarded)
        fun o env => Awaited config (done ++ [o]) env.ledger.unguarded) :
    (paramBlock visit raw).Triple Env.Idle
      fun param env => Awaited config param.children env.ledger.unguarded := by
  have start : ∀ env : Env, env.Idle → Awaited config [] env.ledger.unguarded := by
    intro env idle
    have none : env.ledger.unguarded = [] := idle
    simp [Awaited, none]
  refine (Triple.emit _).bind fun _ _ => ?_
  have loop := Triple.visitAll (I := fun done env => Awaited config done env.ledger.unguarded) h []
  exact (loop.conseq start fun _ _ h => h).bind fun children _ => Triple.pure fun _ h => h

/-- The guard of a parameter requires that its name differs from the zero address. -/
def Guards (config : Config) (param guard : Node) : Prop :=
  ∃ p, param.children.getLast? = some p ∧ p.ty = some (.named "address") ∧
    guard =
      { tag := .require
        children := [
          { tag := .infixExpr
            children := [p, .leaf .nameExpr config.guardOperator, .leaf .text config.zeroAddress]
            span := p.span }]
        span := p.span }

/-- The guards are those of the address parameters, in order, or none if they are switched off. -/
def GuardsAll (config : Config) (params guards : List Node) : Prop :=
  if config.synthesizeGuards then
    List.Forall₂ (Guards config) (params.filter Node.isAddressParam) guards
  else guards = []

theorem takeGuards_guards (config : Config) (params : List Node) :
    (takeGuards config).Triple (fun env => Awaited config params env.ledger.unguarded)
      fun guards _ => GuardsAll config params guards ∧ True := by
  intro env waiting
  refine ⟨?_, trivial⟩
  show GuardsAll config params (env.ledger.unguarded.map (guardOf config))
  cases hs : config.synthesizeGuards
  · have none : env.ledger.unguarded = [] := by simpa [Awaited, hs] using waiting
    simp [GuardsAll, hs, none]
  · simp only [Awaited, GuardsAll, hs, ↓reduceIte, List.forall₂_map_right_iff] at waiting ⊢
    exact waiting.imp fun _ p hp => ⟨p, hp.1, hp.2, rfl⟩

/-- The guards of a function are those of its own parameters. -/
theorem functionDecl_guards (config : Config) {n : Node} (hn : n.WellFormed)
    (ht : n.tag = .functionDecl) (two : 2 ≤ n.children.length)
    (below : ∀ m : Node, m.Inside n → m.tag ≠ .fdPair → ∀ ex, (visit m ex).KeepsIdle)
    (pairs : ∀ m : Node, m.Inside n → m.tag = .fdPair →
      visit m none = do Pass.emit (.dispatch m.tag); fdPair config visit m none)
    (expected : Option Ty) :
    (functionDecl config visit n expected).Triple Env.Idle fun out _ =>
      out.tag = .eventDecl ∨ ∃ raw param body guards visited,
        n.children.getLast? = some raw ∧
        out.children[n.children.length - 1]? = some param ∧ param.tag = .fdParam ∧
        out.children[n.children.length]? = some body ∧ body.tag = .fdBody ∧
        List.Forall₂ (fun m o => (visit m none).Returns o) (params raw) param.children ∧
        body.children = guards ++ visited ∧ GuardsAll config param.children guards ∧
        List.Forall₂ (fun m o => (visit m none).Returns o) (statements raw) visited := by
  unfold functionDecl
  split
  · rename_i name next more hc
    have hraw := rawBody_mem_children hc
    have waits : ∀ m ∈ params (rawBody next more), ∀ done,
        (visit m none).Triple (fun env => Awaited config done env.ledger.unguarded)
          fun o env => Awaited config (done ++ [o]) env.ledger.unguarded := by
      intro m hm done
      have inside := inside_of_mem_params hraw hm
      have kind := tag_of_mem_params hn hraw hm
      rw [pairs m inside kind]
      have blank := (hn.unannotated.inside inside).self
      exact (Triple.emit _).bind fun _ _ => fdPair_awaits config blank kind none done
    have named : name.tag ≠ .fdPair := hn.child_tag (by simp [ht]) (by simp [hc])
    have idle := below name (Node.inside_of_child (by simp [hc])) named expected
    refine Triple.bind idle fun name' _ => ?_
    refine (paramBlock_awaits config waits).bind fun param hparam => ?_
    refine (takeGuards_guards config param.children).bind fun guards _ => ?_
    refine Triple.of_fact fun hguards => ?_
    refine (Triple.emitAll _).bind fun _ _ => ?_
    refine Triple.bind (Q := fun _ _ => True) (fun _ _ => trivial) fun body hbody => ?_
    -- The guards are settled: what is left is where the conclusion puts parameters and body.
    intro env _
    obtain ⟨paramTag, hparams⟩ := paramBlock_returns hparam
    obtain ⟨bodyTag, visited, children, hvisited⟩ := bodyBlock_returns hbody
    rcases concludeFunction_returns config n expected name' _ param body (returns_self _ env) with
      ⟨_, out⟩ | ⟨_, out⟩
    · exact .inl (out ▸ rfl)
    · refine .inr ⟨_, param, body, guards, visited, getLast?_children hc, ?_, paramTag, ?_, bodyTag,
        hparams, children, hguards, hvisited⟩
      · have place := functionOf_param config n expected name' (next :: more).dropLast param body
        rw [out, hc]
        simpa using place
      · have place := functionOf_body config n expected name' (next :: more).dropLast param body
        rw [out, hc]
        simpa using place
  · rename_i few
    match hc : n.children with
    | [] | [_] => simp [hc] at two
    | name :: next :: more => exact absurd hc (few name next more)

end Rule

namespace Engine

/-- **Guards stay with their function.** Nothing waits after a visit of any node but a parameter,
and the body of a function starts with the guards of the function's own address parameters. -/
theorem visit_guards (config : Config) (n : Node) (expected : Option Ty) (env : Env)
    (blank : n.Unannotated) (slotted : n.Slotted) (bodies : n.ProperBodies)
    (idle : env.ledger.unguarded = []) :
    (n.tag ≠ .fdPair → (visit { config } n expected env).env.ledger.unguarded = []) ∧
    (n.tag = .functionDecl → 2 ≤ n.children.length →
      (visit { config } n expected env).value.tag ≠ .eventDecl →
      ∃ raw param body guards visited,
        n.children.getLast? = some raw ∧
        (visit { config } n expected env).value.children[n.children.length - 1]? = some param ∧
        param.tag = .fdParam ∧
        (visit { config } n expected env).value.children[n.children.length]? = some body ∧
        body.tag = .fdBody ∧
        List.Forall₂ (fun m o => (visit { config } m none).Returns o) (Rule.params raw)
          param.children ∧
        body.children = guards ++ visited ∧ Rule.GuardsAll config param.children guards ∧
        List.Forall₂ (fun m o => (visit { config } m none).Returns o)
          (raw.children.filter fun c => c.tag ≠ .functionParam) visited) := by
  have hn : n.WellFormed := ⟨blank, slotted, bodies⟩
  constructor
  · intro ht
    exact idle_visit (e := { config }) rfl n expected hn ht env idle
  · intro ht two notEvent
    have below : ∀ m : Node, m.Inside n → m.tag ≠ .fdPair → ∀ ex,
        (visit { config } m ex).KeepsIdle :=
      fun m hm hp ex => idle_visit rfl m ex (hn.inside hm) hp
    have pairs : ∀ m : Node, m.Inside n → m.tag = .fdPair → visit { config } m none =
        (do Pass.emit (.dispatch m.tag); Rule.fdPair config (visit { config }) m none) :=
      fun m _ hp => visit_of_rule rfl (by rw [hp]; rfl) none
    have run : visit { config } n expected =
        (do Pass.emit (.dispatch n.tag); Rule.functionDecl config (visit { config }) n expected) :=
      visit_of_rule rfl (by rw [ht]; rfl) expected
    have guarded := Rule.functionDecl_guards config hn ht two below pairs expected env idle
    rw [run] at notEvent ⊢
    obtain ⟨raw, param, body, guards, visited, last, rest⟩ := guarded.resolve_left notEvent
    refine ⟨raw, param, body, guards, visited, last, ?_⟩
    rw [← Rule.statements_eq_filter]
    exact rest

/-- A function of three parameters, of which two are addresses below. -/
def send : Node :=
  { tag := .functionDecl
    children := [
      .leaf .nameExpr "send",
      { tag := .block
        children := [
          { tag := .functionParam
            children := [{ tag := .fdPair, children := [.leaf .nameExpr "from"] }] },
          { tag := .functionParam
            children := [{ tag := .fdPair, children := [.leaf .nameExpr "memo"] }] },
          { tag := .functionParam
            children := [{ tag := .fdPair, children := [.leaf .nameExpr "to"] }] },
          .leaf .completeStatement "done"] }] }

def sendEnv : Env :=
  { scope := [("from", .named "address"), ("memo", .named "string"), ("to", .named "address")] }

theorem visit_guards_send :
    send.Unannotated ∧ send.Slotted ∧ send.ProperBodies ∧
    (visit {} send none sendEnv).env.ledger.unguarded = [] ∧
    ∃ param body guards visited,
      (visit {} send none sendEnv).value.children[1]? = some param ∧
      (visit {} send none sendEnv).value.children[2]? = some body ∧
      body.children = guards ++ visited ∧ Rule.GuardsAll {} param.children guards ∧
      (param.children.filter Node.isAddressParam).length = 2 := by
  have blank : send.Unannotated := by decide
  have slotted : send.Slotted := by decide
  have bodies : send.ProperBodies := by decide
  have result := visit_guards {} send none sendEnv blank slotted bodies rfl
  obtain ⟨_, param, body, guards, visited, _, hparam, _, hbody, _, _, children, hguards, _⟩ :=
    result.2 rfl (by decide) (by decide)
  refine ⟨blank, slotted, bodies, result.1 (by decide), param, body, guards, visited, hparam, hbody,
    children, hguards, ?_⟩
  cases hparam
  rfl

/-- A function whose raw body is itself a slot. -/
def slotBody : Node :=
  { tag := .functionDecl
    children := [
      .leaf .nameExpr "send",
      { tag := .functionParam
        children := [{ tag := .fdPair, children := [.leaf .nameExpr "to"] }] }] }

/-- A slot in place of a raw body hands its parameter to the statements: it waits for a guard after
the function, which the next function would get. -/
theorem visit_slotBody_waits :
    slotBody.Unannotated ∧ slotBody.Slotted ∧ slotBody.tag ≠ .fdPair ∧
    sendEnv.ledger.unguarded = [] ∧
    (visit {} slotBody none sendEnv).env.ledger.unguarded ≠ [] := by
  decide

end Engine

end ContractTyping
