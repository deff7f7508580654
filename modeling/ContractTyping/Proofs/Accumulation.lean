import ContractTyping.Proofs.History

/-!
What the pass gathers. Imports and declarations are appended to the ledger and agree with the log
entry by entry; a unit hands over all that its children queue, and binds in each scope the imports
recorded so far. Main statements: `Engine.History.gathers` and `Engine.History.chained`, what every
history adds to the ledger and binds in scopes.
-/

namespace ContractTyping

namespace Event

/-- The event tells of the import, under the encoding of its symbol. -/
def Records : Event → Import → Prop
  | recordedImport symbol encoded, i => i.encodedName = encoded ∧ encoded = ImportName.encode symbol
  | _, _ => False

def isImport : Event → Bool
  | recordedImport _ _ => true
  | _ => false

def isQueued : Event → Bool
  | queuedStruct _ | queuedEnum _ => true
  | _ => false

def isHoisted : Event → Bool
  | hoisted _ => true
  | _ => false

theorem filter_of_plain {events : List Event} (plain : ∀ event ∈ events, event.isEntry = false)
    {kind : Event → Bool} (h : ∀ event, kind event = true → event.isEntry = true) :
    events.filter kind = [] := by
  refine List.filter_eq_nil_iff.mpr fun event hm hk => ?_
  exact Bool.false_ne_true ((plain event hm).symm.trans (h event hk))

theorem isEntry_of_isImport (event : Event) (h : event.isImport = true) : event.isEntry = true := by
  cases event <;> first | rfl | cases h

theorem isEntry_of_isQueued (event : Event) (h : event.isQueued = true) : event.isEntry = true := by
  cases event <;> first | rfl | cases h

theorem isEntry_of_isHoisted (event : Event) (h : event.isHoisted = true) :
    event.isEntry = true := by
  cases event <;> first | rfl | cases h

end Event

/-! ## The ledger -/

/-- What a computation appends to the ledger, event by event; no declarations are taken away, and
names stay bound. -/
structure Pass.Gathers (p : Pass α) (env : Env) (imports : List Import) (decls : List Node) :
    Prop where
  imported : (p env).env.ledger.imports = env.ledger.imports ++ imports
  recorded : List.Forall₂ Event.Records ((p env).log.filter Event.isImport) imports
  declared : (p env).env.ledger.decls = env.ledger.decls ++ decls
  queued : List.Forall₂ Event.Declares ((p env).log.filter Event.isQueued) decls
  kept : (p env).log.filter Event.isHoisted = []
  names : ∀ name, (env.lookup? name).isSome = true → ((p env).env.lookup? name).isSome = true

namespace Pass.Gathers

/-- A step that adds nothing. -/
theorem quiet {p : Pass α} {env : Env} (plain : ∀ event ∈ (p env).log, event.isEntry = false)
    (imports : (p env).env.ledger.imports = env.ledger.imports)
    (decls : (p env).env.ledger.decls = env.ledger.decls)
    (names : ∀ name, (env.lookup? name).isSome = true → ((p env).env.lookup? name).isSome = true) :
    p.Gathers env [] [] := by
  refine ⟨?_, ?_, ?_, ?_, Event.filter_of_plain plain Event.isEntry_of_isHoisted, names⟩
  · rw [imports, List.append_nil]
  · rw [Event.filter_of_plain plain Event.isEntry_of_isImport]
    exact .nil
  · rw [decls, List.append_nil]
  · rw [Event.filter_of_plain plain Event.isEntry_of_isQueued]
    exact .nil

theorem dispatch (t : Tag) (env : Env) : (Pass.emit (.dispatch t)).Gathers env [] [] :=
  ⟨(List.append_nil _).symm, .nil, (List.append_nil _).symm, .nil, rfl, fun _ h => h⟩

theorem bind {p : Pass α} {f : α → Pass β} {env : Env} {imports imports' : List Import}
    {decls decls' : List Node} (before : p.Gathers env imports decls)
    (after : (f (p env).value).Gathers (p env).env imports' decls') :
    (p >>= f).Gathers env (imports ++ imports') (decls ++ decls') := by
  refine ⟨?_, ?_, ?_, ?_, ?_, fun name h => after.names name (before.names name h)⟩
  · rw [bind_env, after.imported, before.imported, List.append_assoc]
  · rw [bind_log, List.filter_append]
    exact List.rel_append before.recorded after.recorded
  · rw [bind_env, after.declared, before.declared, List.append_assoc]
  · rw [bind_log, List.filter_append]
    exact List.rel_append before.queued after.queued
  · rw [bind_log, List.filter_append, before.kept, after.kept, List.append_nil]

theorem imports_prefix {p : Pass α} {env : Env} {imports : List Import} {decls : List Node}
    (h : p.Gathers env imports decls) : env.ledger.imports <+: (p env).env.ledger.imports :=
  ⟨imports, h.imported.symm⟩

end Pass.Gathers

namespace Engine

open Pass

variable {e : Engine}

/-- **Every history appends.** -/
theorem History.gathers (he : e.rules = []) {p : Pass α} {env : Env} {scopes : List DeclScope}
    (h : e.History p env scopes) : ∃ imports decls, p.Gathers env imports decls := by
  induction h with
  | pure a env => exact ⟨[], [], .quiet (by simp) rfl rfl fun _ h => h⟩
  | bind _ _ before after =>
    obtain ⟨imports, decls, first⟩ := before
    obtain ⟨imports', decls', second⟩ := after
    exact ⟨imports ++ imports', decls ++ decls', first.bind second⟩
  | emitAll plain env => exact ⟨[], [], .quiet plain rfl rfl fun _ h => h⟩
  | asks f env => exact ⟨[], [], .quiet (by simp) rfl rfl fun _ h => h⟩
  | bindName name ty env =>
    refine ⟨[], [], .quiet (by simp) rfl rfl fun x h => ?_⟩
    rw [Pass.bindName_apply, Env.lookup?_bind]
    split
    · rfl
    · exact h
  | note imports decls env =>
    exact ⟨[], [], .quiet (by simp) (imports _) (decls _) fun _ h => h⟩
  | @record symbol i name env =>
    have told : Event.Records (.recordedImport symbol i.encodedName) i := ⟨rfl, name⟩
    exact ⟨[i], [], rfl, .cons told .nil, (List.append_nil _).symm, .nil, rfl, fun _ h => h⟩
  | @queue event d declares env =>
    cases event with
    | queuedStruct | queuedEnum =>
      exact ⟨[], [d], (List.append_nil _).symm, .nil, rfl, .cons declares .nil, rfl, fun _ h => h⟩
    | _ => exact declares.elim
  | @scope n expected env inner kind within ih =>
    obtain ⟨imports, decls, ih⟩ := ih
    rw [visit_of_rule he (r := Rule.variableDecl) (kind ▸ rfl)]
    exact ⟨[] ++ imports, [] ++ decls, (Gathers.dispatch n.tag env).bind ih⟩

end Engine

/-! ## Declaration scopes -/

theorem Rule.variableDecl_bound (v : Visitor) (n : Node) (expected : Option Ty) (env : Env) :
    (DeclScope.mk n (variableDecl v n expected env).value
        (variableDecl v n expected env).env.ledger.imports).bound =
      (variableDecl v n expected env).env.ledger.imports.map Import.toPair := by
  show ((visitAll v n.children none env).value ++ _).drop n.children.length = _
  rw [← length_visitAll v n.children none env, List.drop_left]
  rfl

/-- Scopes bind the imports recorded so far, so a later scope has those of an earlier one first. All
scopes are told of in the log. -/
structure Pass.Chained (p : Pass α) (env : Env) (scopes : List DeclScope) : Prop where
  bound : ∀ s ∈ scopes, s.bound = s.imports.map Import.toPair ∧
    env.ledger.imports <+: s.imports ∧ s.imports <+: (p env).env.ledger.imports
  ordered : scopes.Pairwise fun s t => s.bound <+: t.bound
  counted : scopes.length = (p env).log.count (.dispatch .variableDecl)

namespace Pass.Chained

theorem none {p : Pass α} {env : Env}
    (h : Event.dispatch .variableDecl ∉ (p env).log) : p.Chained env [] :=
  ⟨by simp, .nil, (List.count_eq_zero.mpr h).symm⟩

theorem bind {p : Pass α} {f : α → Pass β} {env : Env} {first second : List DeclScope}
    (before : p.Chained env first) (after : (f (p env).value).Chained (p env).env second)
    (grows : env.ledger.imports <+: (p env).env.ledger.imports)
    (grows' : (p env).env.ledger.imports <+: ((p >>= f) env).env.ledger.imports) :
    (p >>= f).Chained env (first ++ second) := by
  refine ⟨List.forall_mem_append.mpr ⟨fun s hs => ?_, fun s hs => ?_⟩, ?_, ?_⟩
  · obtain ⟨same, old, new⟩ := before.bound s hs
    exact ⟨same, old, new.trans grows'⟩
  · obtain ⟨same, old, new⟩ := after.bound s hs
    exact ⟨same, grows.trans old, new⟩
  · refine List.pairwise_append.mpr ⟨before.ordered, after.ordered, fun s hs t ht => ?_⟩
    obtain ⟨same, -, new⟩ := before.bound s hs
    obtain ⟨same', old, -⟩ := after.bound t ht
    rw [same, same']
    exact (new.trans old).map Import.toPair
  · rw [List.length_append, bind_log, List.count_append, before.counted, after.counted]

/-- A scope comes back after the scopes inside it. -/
theorem scope {v : Visitor} {n : Node} {expected : Option Ty} {env : Env} {inner : List DeclScope}
    (h : (Rule.variableDecl v n expected).Chained env inner)
    (grows : env.ledger.imports <+: (Rule.variableDecl v n expected env).env.ledger.imports) :
    Pass.Chained (do Pass.emit (.dispatch .variableDecl); Rule.variableDecl v n expected) env
      (inner ++ [⟨n, (Rule.variableDecl v n expected env).value,
        (Rule.variableDecl v n expected env).env.ledger.imports⟩]) := by
  have own := Rule.variableDecl_bound v n expected env
  refine ⟨List.forall_mem_append.mpr ⟨h.bound, List.forall_mem_singleton.mpr ?_⟩, ?_, ?_⟩
  · exact ⟨own, grows, List.prefix_refl _⟩
  · refine List.pairwise_append.mpr ⟨h.ordered, List.pairwise_singleton _ _, fun s hs t ht => ?_⟩
    obtain rfl := List.mem_singleton.mp ht
    obtain ⟨same, -, new⟩ := h.bound s hs
    rw [same, own]
    exact new.map Import.toPair
  · rw [List.length_append, h.counted, bind_log, List.count_append, Nat.add_comm]
    rfl

end Pass.Chained

namespace Engine

open Pass

variable {e : Engine}

/-- **Every history chains its scopes.** -/
theorem History.chained (he : e.rules = []) {p : Pass α} {env : Env} {scopes : List DeclScope}
    (h : e.History p env scopes) : p.Chained env scopes := by
  induction h with
  | pure a env => exact .none (by simp)
  | @bind _ _ p f env first second before after ih ih' =>
    obtain ⟨_, _, adds⟩ := before.gathers he
    obtain ⟨_, _, adds'⟩ := after.gathers he
    exact ih.bind ih' adds.imports_prefix adds'.imports_prefix
  | emitAll plain env =>
    exact .none fun h => Bool.false_ne_true ((plain _ h).symm.trans rfl)
  | asks f env => exact .none (by simp)
  | bindName name ty env => exact .none (by simp)
  | note imports decls env => exact .none (by simp)
  | record name env => exact .none (by simp)
  | @queue event d declares env =>
    refine .none fun h => ?_
    simp only [bind_log, emit_apply, updateLedger_apply, List.append_nil, List.mem_singleton] at h
    subst h
    exact declares
  | @scope n expected env inner kind within ih =>
    obtain ⟨_, _, adds⟩ := within.gathers he
    -- The event of the scope is the first of the visit, so inner scopes are counted after it.
    have run := visit_of_rule he (n := n) (r := Rule.variableDecl) (kind ▸ rfl) expected
    rw [run, kind]
    exact ih.scope adds.imports_prefix

/-! ## Units -/

/-- The visits of the children of a unit, which starts with an empty ledger. -/
def unitRun (e : Engine) (n : Node) (env : Env) : Outcome (List Node) :=
  Rule.unitChildren e.visit n.children (env.updateLedger fun _ => {})

/-- What a unit makes of its children: their declarations are handed over, all of them, and each
scope binds the imports that are recorded by the time it comes back, so that the imports of scopes
extend each other. -/
structure Delivers (e : Engine) (n : Node) (expected : Option Ty) (env : Env)
    (visited decls : List Node) (scopes : List DeclScope) : Prop where
  children : (e.visit n expected env).value.children =
    visited ++ [{ tag := .typeDecls, children := decls, context := some "user", ty := some .void }]
  length : visited.length = n.children.length
  gathered : decls = (e.unitRun n env).env.ledger.decls
  queued : List.Forall₂ Event.Declares ((e.visit n expected env).log.filter Event.isQueued) decls
  told : (e.visit n expected env).log.filter Event.isHoisted = [.hoisted decls.length]
  emptied : (e.visit n expected env).env.ledger.decls = []
  history : e.History (Rule.unitChildren e.visit n.children) (env.updateLedger fun _ => {}) scopes
  counted : scopes.length = (e.visit n expected env).log.count (.dispatch .variableDecl)
  recorded : List.Forall₂ Event.Records ((e.visit n expected env).log.filter Event.isImport)
    (e.unitRun n env).env.ledger.imports
  pairs : ∀ s ∈ scopes, s.bound = s.imports.map Import.toPair ∧
    s.imports <+: (e.unitRun n env).env.ledger.imports
  ordered : scopes.Pairwise fun s t => s.bound <+: t.bound

/-- The log of a unit is that of its children, between the event that it is entered and the event
that declarations are hoisted. -/
theorem delivers_of_history (he : e.rules = []) {n : Node} (ht : n.tag = .source)
    (expected : Option Ty) {env : Env} {scopes : List DeclScope}
    (h : e.History (Rule.unitChildren e.visit n.children) (env.updateLedger fun _ => {}) scopes) :
    ∃ visited decls, e.Delivers n expected env visited decls scopes := by
  obtain ⟨imports, decls, adds⟩ := h.gathers he
  have chain := h.chained he
  have queue : (e.unitRun n env).env.ledger.decls = decls := adds.declared
  have told : (e.unitRun n env).env.ledger.imports = imports := adds.imported
  obtain ⟨value, after, log⟩ := visit_unit he ht expected env
  rw [← unitRun, queue] at log
  refine ⟨(e.unitRun n env).value, decls, ?_, ?_, queue.symm, ?_, ?_, ?_, h, ?_, ?_, ?_,
    chain.ordered⟩
  · rw [value, ← queue]
    rfl
  · exact (Rule.unitChildren_returns (Pass.returns_self _ _)).length_eq.symm
  · rw [log, List.filter_append, List.filter_append]
    simpa [Event.isQueued, unitRun] using adds.queued
  · have kept : (e.unitRun n env).log.filter Event.isHoisted = [] := adds.kept
    rw [log, List.filter_append, List.filter_append, kept]
    rfl
  · rw [after]
    rfl
  · rw [log, List.count_append, List.count_append, chain.counted]
    simp [unitRun]
  · rw [log, List.filter_append, List.filter_append, told]
    simpa [Event.isImport, unitRun] using adds.recorded
  · intro s hs
    obtain ⟨same, -, new⟩ := chain.bound s hs
    exact ⟨same, new⟩

/-- **The ledger grows with the log.** A visit of a tree without units appends imports and
declarations, one for each event that tells of it, and unbinds no name. A unit without further units
in it hands over the declarations that its children queue, tells how many there are and keeps none;
each of its scopes binds the imports recorded by the time it comes back, so these extend each other
in the order in which scopes are processed. -/
theorem visit_gathers (config : Config) (n : Node) (expected : Option Ty) (env : Env) :
    (n.All (·.tag ≠ .source) →
      ∃ imports decls, (visit { config } n expected).Gathers env imports decls) ∧
    (n.tag = .source → (∀ c ∈ n.children, c.All (·.tag ≠ .source)) →
      ∃ visited decls scopes, Delivers { config } n expected env visited decls scopes) := by
  constructor
  · intro free
    obtain ⟨scopes, history⟩ := orderly_visit config n expected free env
    exact history.gathers rfl
  · intro ht free
    obtain ⟨scopes, history⟩ := orderly_unitChildren config n free (env.updateLedger fun _ => {})
    obtain ⟨visited, decls, delivers⟩ := delivers_of_history rfl ht expected history
    exact ⟨visited, decls, scopes, delivers⟩

/-- An import of a symbol under a short name. -/
def importOf (symbol short : String) : Node :=
  { tag := .importDecl
    children := [
      { tag := .other "Names"
        children := [
          { tag := .other "Symbol", children := [.leaf .text symbol] }, .leaf .text short] },
      .leaf .text "path", .leaf .text "address"] }

/-- Two scopes, the second after a further import. -/
def marketDecls : List Node :=
  [{ tag := .importList, children := [importOf "Token" "T"] },
   { tag := .variableDecl
     children := [{ tag := .structDefine, children := [.leaf .text "Bid"] }] },
   { tag := .importList, children := [importOf "Oracle" "O"] },
   { tag := .variableDecl, children := [{ tag := .enumType, children := [.leaf .text "open"] }] }]

def marketBlock : Node := { tag := .block, children := marketDecls }

def marketUnit : Node := { tag := .source, children := marketDecls }

/-- As a block, the declarations stay in the ledger; as a unit, they are handed over. -/
theorem visit_gathers_market :
    (marketBlock.All (·.tag ≠ .source) ∧
      ∃ imports decls, (visit {} marketBlock none).Gathers {} imports decls ∧
        imports.length = 2 ∧ decls.length = 2) ∧
    (marketUnit.tag = .source ∧ (∀ c ∈ marketUnit.children, c.All (·.tag ≠ .source)) ∧
      ∃ visited decls scopes, Delivers {} marketUnit none {} visited decls scopes ∧
        decls.length = 2 ∧ scopes.length = 2) := by
  have free : marketBlock.All (·.tag ≠ .source) := by decide
  have single : ∀ c ∈ marketUnit.children, c.All (·.tag ≠ .source) := by decide
  refine ⟨⟨free, ?_⟩, rfl, single, ?_⟩
  · obtain ⟨imports, decls, adds⟩ := (visit_gathers {} marketBlock none {}).1 free
    have imported : imports.length = 2 := by
      rw [← List.nil_append imports]
      exact (congrArg List.length adds.imported).symm
    have declared : decls.length = 2 := by
      rw [← List.nil_append decls]
      exact (congrArg List.length adds.declared).symm
    exact ⟨imports, decls, adds, imported, declared⟩
  · obtain ⟨visited, decls, scopes, delivers⟩ := (visit_gathers {} marketUnit none {}).2 rfl single
    have count : decls.length = 2 := by
      rw [delivers.gathered]
      decide
    exact ⟨visited, decls, scopes, delivers, count, delivers.counted.trans (by decide)⟩

end Engine

end ContractTyping
