import ContractTyping.Proofs.Visit

/-!
Classes of computations. A class is closed when it holds the steps of rules that only read, and with
computations also what runs one after the other. Main statement: `Engine.closed_rule`, a rule is in
every closed class that holds the visits below and what that rule itself changes.
-/

namespace ContractTyping

/-- A class of computations that may look up the given names and read the whole ledger. -/
structure Pass.Closed (names : List String) (C : (α : Type) → Pass α → Prop) : Prop where
  pure : ∀ {α : Type} (a : α), C α (Pure.pure a)
  bind : ∀ {α β : Type} {p : Pass α} {f : α → Pass β},
    C α p → (∀ a, p.Returns a → C β (f a)) → C β (p >>= f)
  emitAll : ∀ events, C Unit (Pass.emitAll events)
  readLedger : ∀ {α : Type} (f : Ledger → α), C α (Pass.asks fun env => f env.ledger)
  lookup? : ∀ name ∈ names, C (Option Ty) (Pass.lookup? name)

/-- The class holds what the rule for a kind changes in the environment. -/
def Pass.Permits (C : (α : Type) → Pass α → Prop) : Tag → Prop
  | .source => C Unit (updateLedger fun _ => {}) ∧ C Unit (updateLedger ({ · with decls := [] }))
  | .importDecl => ∀ i, C Unit (updateLedger (·.addImport i))
  | .functionName => ∀ name display, C Unit (updateLedger (·.addDisplayName name display))
  | .structDefine =>
    (∀ name ty, C Unit (bindName name ty)) ∧ ∀ decl, C Unit (updateLedger (·.addDecl decl))
  | .enumType => ∀ decl, C Unit (updateLedger (·.addDecl decl))
  | .fdPair => ∀ param, C Unit (updateLedger (·.addUnguarded param))
  | .functionDecl =>
    (∀ name ty, C Unit (bindName name ty)) ∧ C Unit (updateLedger ({ · with unguarded := [] }))
  | .assumeDecl => ∀ name ty, C Unit (bindName name ty)
  | _ => True

/-- To keep an invariant of the ledger is a closed class. -/
theorem Pass.Keeps.closed (I : Ledger → Prop) (names : List String) :
    Closed names fun _ p => p.Keeps (fun env => I env.ledger) fun _ => True where
  pure _ := Keeps.pure trivial
  bind hp hf := hp.bind fun a ha _ => hf a ha
  emitAll events := Keeps.emitAll events
  readLedger _ := Keeps.reads _
  lookup? name _ := Keeps.lookup? name

namespace Rule

open Pass

variable {names : List String} {C : (α : Type) → Pass α → Prop} (hC : Closed names C)
  {visit : Visitor} {n : Node} (expected : Option Ty)

section Steps

include hC

theorem closed_seq {p : Pass α} {q : Pass β} (hp : C α p) (hq : C β q) :
    C β (do let _ ← p; q) :=
  hC.bind hp fun _ _ => hq

theorem closed_emit {q : Pass β} (e : Event) (hq : C β q) : C β (do Pass.emit e; q) :=
  closed_seq hC (hC.emitAll [e]) hq

theorem closed_visitAll {ms : List Node} (h : ∀ m ∈ ms, C Node (visit m expected)) :
    C (List Node) (visitAll visit ms expected) := by
  induction ms with
  | nil => exact hC.pure []
  | cons m ms ih =>
    have tail := ih fun k hk => h k (List.mem_cons_of_mem _ hk)
    refine hC.bind (h m List.mem_cons_self) fun n _ => ?_
    exact hC.bind tail fun ns _ => hC.pure (n :: ns)

theorem closed_resolving {name : String} {found : Ty → Pass Node} (hn : name ∈ names)
    (h : ∀ ty, C Node (found ty)) : C Node (resolving n name found) := by
  refine hC.bind (hC.lookup? name hn) fun ty _ => ?_
  cases ty with
  | some ty => exact h ty
  | none => exact closed_emit hC _ (hC.pure _)

theorem closed_takeDecls (clear : C Unit (updateLedger ({ · with decls := [] }))) :
    C (List Node) takeDecls := by
  refine hC.bind (hC.readLedger Ledger.decls) fun decls _ => ?_
  exact closed_seq hC clear (hC.pure decls)

theorem closed_takeGuards (config : Config)
    (clear : C Unit (updateLedger ({ · with unguarded := [] }))) :
    C (List Node) (takeGuards config) := by
  refine hC.bind (hC.readLedger Ledger.unguarded) fun params _ => ?_
  refine closed_seq hC clear ?_
  exact closed_seq hC (hC.emitAll _) (hC.pure _)

theorem closed_awaitGuard (config : Config) (ty : Ty) (name : Node)
    (wait : ∀ param, C Unit (updateLedger (·.addUnguarded param))) :
    C Unit (awaitGuard config ty name) := by
  unfold awaitGuard
  split
  · exact wait name
  · exact hC.pure ()

theorem closed_concludeFunction (bind : ∀ name ty, C Unit (bindName name ty)) (config : Config)
    (name : Node) (middle : List Node) (param body : Node) :
    C Node (concludeFunction config n expected name middle param body) := by
  refine closed_seq hC (bind _ _) ?_
  split
  · exact closed_seq hC (hC.emitAll _) (hC.pure _)
  · exact hC.pure _

theorem closed_bodyBlock {raw : Node} (h : ∀ m ∈ statements raw, C Node (visit m none))
    (guards : List Node) : C Node (bodyBlock visit raw guards) := by
  refine closed_emit hC _ ?_
  refine closed_seq hC (hC.emitAll _) ?_
  exact hC.bind (closed_visitAll hC none h) fun _ _ => hC.pure _

theorem closed_importDecl (add : ∀ i, C Unit (updateLedger (·.addImport i))) :
    C Node (importDecl visit n expected) := by
  unfold importDecl
  split
  · split
    · exact closed_emit hC _ (closed_seq hC (add _) (hC.pure _))
    · exact hC.pure _
  · exact hC.pure _

theorem closed_functionName
    (add : ∀ name display, C Unit (updateLedger (·.addDisplayName name display))) :
    C Node (functionName visit n expected) := by
  unfold functionName
  split
  · exact closed_seq hC (add _ _) (hC.pure _)
  · exact hC.pure _

end Steps

/-! ## Rules that look names up -/

section Names

variable (texts : n.texts ⊆ names)

include hC texts

theorem closed_pair : C Node (pair visit n expected) := by
  unfold pair
  split
  · rename_i first name rest hc
    have mentioned : name.text ∈ n.texts := Node.child_text_mem_texts (by simp [hc])
    exact closed_resolving hC (texts mentioned) fun ty => hC.pure _
  · exact hC.pure _

theorem closed_raw : C Node (raw visit n expected) := by
  refine hC.bind (hC.lookup? _ (texts n.text_mem_texts)) fun ty _ => ?_
  cases ty with
  | some ty => exact hC.pure _
  | none => exact closed_emit hC _ (hC.pure _)

theorem closed_fdPair (config : Config)
    (wait : ∀ param, C Unit (updateLedger (·.addUnguarded param))) :
    C Node (fdPair config visit n expected) := by
  unfold fdPair
  split
  · exact hC.pure _
  · rename_i name hl
    have mentioned := Node.child_text_mem_texts (List.mem_of_getLast? hl)
    refine closed_resolving hC (texts mentioned) fun ty => ?_
    exact closed_seq hC (closed_awaitGuard hC config ty _ wait) (hC.pure _)

end Names

/-! ## Rules that visit children -/

section Children

variable (below : ∀ c ∈ n.children, ∀ ex, C Node (visit c ex))

include hC below

theorem closed_children {ms : List Node} (h : ms ⊆ n.children) :
    C (List Node) (visitAll visit ms expected) :=
  closed_visitAll hC expected fun m hm => below m (h hm) expected

/-- Visiting all children and returning a node is all that several rules do. -/
theorem closed_each (rebuild : List Node → Node) :
    C Node (do let children ← visitAll visit n.children expected; return rebuild children) :=
  hC.bind (closed_children hC expected below fun _ hm => hm) fun _ _ => hC.pure _

theorem closed_unitChildren : C (List Node) (unitChildren visit n.children) := by
  unfold unitChildren
  split
  · exact hC.pure []
  · rename_i last hl
    split
    · refine hC.bind (below last (List.mem_of_getLast? hl) _) fun last' _ => ?_
      have others := closed_children hC (some .void) below (List.dropLast_subset _)
      exact hC.bind others fun _ _ => hC.pure _
    · exact closed_children hC _ below fun _ hm => hm

theorem closed_source (reset : C Unit (updateLedger fun _ => {}))
    (clear : C Unit (updateLedger ({ · with decls := [] }))) :
    C Node (source visit n expected) := by
  refine closed_seq hC reset ?_
  refine closed_emit hC _ ?_
  refine hC.bind (closed_unitChildren hC below) fun children _ => ?_
  refine hC.bind (closed_takeDecls hC clear) fun decls _ => ?_
  exact closed_emit hC _ (hC.pure _)

theorem closed_importList : C Node (importList visit n expected) := by
  unfold importList
  split
  · exact hC.pure _
  · exact closed_each hC expected below _

theorem closed_variableDecl : C Node (variableDecl visit n expected) := by
  refine hC.bind (closed_children hC none below fun _ hm => hm) fun children _ => ?_
  exact hC.bind (hC.readLedger Ledger.imports) fun imports _ => hC.pure _

theorem closed_assign : C Node (assign visit n expected) := by
  unfold assign
  split
  · rename_i target value rest hc
    refine hC.bind (below target (by simp [hc]) none) fun target' _ => ?_
    exact hC.bind (below value (by simp [hc]) target'.ty) fun value' _ => hC.pure _
  · exact hC.pure _

/-- A name is looked up for an operand that comes back untyped. Its payload is the one it had. -/
theorem closed_returnStatement (texts : n.texts ⊆ names)
    (head : ∀ (m : Node) ex, (visit m ex).Yields m.BecomesOf) :
    C Node (returnStatement visit n expected) := by
  unfold returnStatement
  split
  · rename_i operand rest hc
    have child : operand ∈ n.children := by simp [hc]
    refine hC.bind (below operand child expected) fun operand' hreturn => ?_
    dsimp only
    split
    · exact hC.pure _
    · rename_i name hty _ _ hpayload
      have payload := (head operand expected operand' hreturn).payload_of_untyped hty
      have same : operand.text = name := Node.text_of_payload (payload.symm.trans hpayload)
      have mentioned : name ∈ n.texts := same ▸ Node.child_text_mem_texts child
      exact closed_resolving hC (texts mentioned) fun ty => hC.pure _
    · exact hC.pure _
  · exact hC.pure _

theorem closed_recordStatement : C Node (recordStatement visit n expected) := by
  unfold recordStatement
  split
  · rename_i target event rest hc
    refine hC.bind (below target (by simp [hc]) expected) fun target' _ => ?_
    exact hC.bind (hC.readLedger (·.displayName? event.text)) fun display _ => hC.pure _
  · exact hC.pure _

theorem closed_mapping (arity : Nat) : C Node (mapping arity visit n expected) := by
  unfold mapping
  split
  · exact hC.pure _
  · rename_i operand rest hc
    have child : operand ∈ n.children := List.mem_of_mem_drop (hc ▸ List.mem_cons_self)
    refine hC.bind (below operand child none) fun operand' _ => ?_
    split
    · have indices := closed_children hC none below (List.take_subset arity n.children)
      exact hC.bind indices fun _ _ => hC.pure _
    · exact hC.pure _

theorem closed_structDefine (bind : ∀ name ty, C Unit (bindName name ty))
    (add : ∀ decl, C Unit (updateLedger (·.addDecl decl))) :
    C Node (structDefine visit n expected) := by
  unfold structDefine
  split
  · rename_i name fields hc
    have sub : fields ⊆ n.children := hc ▸ List.subset_cons_self name fields
    refine hC.bind (closed_children hC expected below sub) fun fields' _ => ?_
    refine closed_seq hC (bind _ _) ?_
    exact closed_emit hC _ (closed_seq hC (add _) (hC.pure _))
  · exact hC.pure _

theorem closed_enumType (config : Config) (add : ∀ decl, C Unit (updateLedger (·.addDecl decl))) :
    C Node (enumType config visit n expected) := by
  refine hC.bind (closed_children hC expected below fun _ hm => hm) fun children _ => ?_
  refine hC.bind (hC.readLedger fun l => enumName config l.decls) fun generated _ => ?_
  exact closed_emit hC _ (closed_seq hC (add _) (hC.pure _))

theorem closed_assumeDecl (bind : ∀ name ty, C Unit (bindName name ty)) :
    C Node (assumeDecl visit n expected) := by
  unfold assumeDecl
  split
  · rename_i name value rest hc
    have sub : rest ⊆ n.children := fun m hm => by simp [hc, hm]
    refine hC.bind (below name (by simp [hc]) expected) fun name' _ => ?_
    refine hC.bind (below value (by simp [hc]) expected) fun value' _ => ?_
    refine hC.bind (closed_children hC expected below sub) fun rest' _ => ?_
    exact closed_emit hC _ (closed_seq hC (bind _ _) (hC.pure _))
  · exact hC.pure _

end Children

include hC in
/-- A function visits its name, the parameters in slots of its raw body, and the statements. -/
theorem closed_functionDecl (config : Config) (bind : ∀ name ty, C Unit (bindName name ty))
    (clear : C Unit (updateLedger ({ · with unguarded := [] })))
    (below : ∀ m : Node, m.Inside n → ∀ ex, C Node (visit m ex)) :
    C Node (functionDecl config visit n expected) := by
  unfold functionDecl
  split
  · rename_i name next more hc
    have raw := rawBody_mem_children hc
    have param : C Node (paramBlock visit (rawBody next more)) := by
      refine closed_emit hC _ ?_
      refine hC.bind (closed_visitAll hC none fun m hm => ?_) fun _ _ => hC.pure _
      exact below m (inside_of_mem_params raw hm) none
    have body := closed_bodyBlock hC fun m hm => below m (inside_of_mem_statements raw hm) none
    refine hC.bind (below name (Node.inside_of_child (by simp [hc])) expected) fun name' _ => ?_
    refine hC.bind param fun param' _ => ?_
    refine hC.bind (closed_takeGuards hC config clear) fun guards _ => ?_
    refine closed_seq hC (hC.emitAll _) ?_
    refine hC.bind (body guards) fun body' _ => ?_
    exact closed_concludeFunction hC expected bind config _ _ _ _
  · exact hC.pure _

end Rule

namespace Engine

open Pass

variable {names : List String} {C : (α : Type) → Pass α → Prop} (hC : Closed names C)
  {config : Config} {t : Tag} {r : Rule} (h : BuiltIn config t r) (permits : Permits C t)
  {visit : Visitor} {n : Node} (texts : n.texts ⊆ names)
  (head : ∀ (m : Node) ex, (visit m ex).Yields m.BecomesOf)

include hC h permits texts head

/-- **One walk over the rules.** A rule is in a closed class that holds the visits of the children
and what the rule changes. The rule for functions visits below its children and is left out. -/
theorem closed_rule (ht : t ≠ .functionDecl) (below : ∀ c ∈ n.children, ∀ ex, C Node (visit c ex))
    (expected : Option Ty) : C Node (r visit n expected) := by
  cases h with
  | source => exact Rule.closed_source hC expected below permits.1 permits.2
  | block | fdParam | wordDefine | assumeDecls => exact Rule.closed_each hC expected below _
  | fdBody => exact Rule.closed_each hC none below _
  | title | eventDecl | completeStatement | intExpr => exact hC.pure _
  | importList => exact Rule.closed_importList hC expected below
  | importDecl => exact Rule.closed_importDecl hC expected permits
  | variableDecl => exact Rule.closed_variableDecl hC expected below
  | vPair | pair => exact Rule.closed_pair hC expected texts
  | functionDecl => exact absurd rfl ht
  | functionName => exact Rule.closed_functionName hC expected permits
  | fdPair => exact Rule.closed_fdPair hC expected texts config permits
  | assign => exact Rule.closed_assign hC expected below
  | returnStatement => exact Rule.closed_returnStatement hC expected below texts head
  | recordStatement => exact Rule.closed_recordStatement hC expected below
  | map1 | map2 => exact Rule.closed_mapping hC expected below _
  | raw => exact Rule.closed_raw hC expected texts
  | structDefine => exact Rule.closed_structDefine hC expected below permits.1 permits.2
  | enumType => exact Rule.closed_enumType hC expected below config permits
  | assumeDecl => exact Rule.closed_assumeDecl hC expected below permits

/-- Any rule is in a closed class that holds the visits of all nodes below. -/
theorem closed_rule_of_inside (below : ∀ m : Node, m.Inside n → ∀ ex, C Node (visit m ex))
    (expected : Option Ty) : C Node (r visit n expected) := by
  by_cases ht : t = .functionDecl
  · subst ht
    cases h
    exact Rule.closed_functionDecl hC expected config permits.1 permits.2 below
  · have children := fun c hc => below c (Node.inside_of_child hc)
    exact closed_rule hC h permits texts head ht children expected

end Engine

end ContractTyping
