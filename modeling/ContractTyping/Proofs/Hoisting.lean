import ContractTyping.Proofs.Closure
import ContractTyping.Proofs.Hoisted

/-!
Hoisting of type declarations. Typed structures and enumerations are queued in the ledger where they
are met and stand at the end of the unit afterwards. Main statements: `Engine.hoists_visit`, a visit
queues the declarations of the tree that comes back; and `Rule.source_hoists`, the unit ends with
the declarations of its other children.
-/

namespace ContractTyping

namespace Node

/-- A name or text without children. -/
def IsPlainName (n : Node) : Prop := (n.tag = .nameExpr ∨ n.tag = .text) ∧ n.children = []

instance (n : Node) : Decidable n.IsPlainName := inferInstanceAs (Decidable (_ ∧ _))

/-- The names of pairs, in second place, and of parameters, in last place, are plain. -/
def PlainNames (n : Node) : Prop :=
  n.All fun m => (m.tag = .pair ∨ m.tag = .vPair → ∀ c ∈ m.children[1]?, c.IsPlainName) ∧
    (m.tag = .fdPair → ∀ c ∈ m.children.getLast?, c.IsPlainName)

instance (n : Node) : Decidable n.PlainNames := inferInstanceAs (Decidable (n.All _))

/-- Neither units nor declarations that are queued stand in the tree. -/
def Quiet (n : Node) : Prop :=
  n.All fun m => m.tag ≠ .source ∧ m.tag ≠ .structDefine ∧ m.tag ≠ .enumType

/-- No declaration that is queued stands below an assumption. -/
def PlainAssumptions (n : Node) : Prop :=
  n.All fun m => m.tag = .assumeDecl →
    ∀ c ∈ m.children, c.All fun k => k.tag ≠ .structDefine ∧ k.tag ≠ .enumType

instance (n : Node) : Decidable n.PlainAssumptions := inferInstanceAs (Decidable (n.All _))

/-- The trees of a unit from which declarations are hoisted. -/
structure Hoistable (n : Node) : Prop where
  unannotated : n.Unannotated
  noUnits : n.All fun m => m.tag ≠ .source
  noEvents : n.All fun m => m.tag ≠ .eventStatement
  assumptions : n.PlainAssumptions
  names : n.PlainNames

theorem Hoistable.inside {n m : Node} (h : n.Hoistable) (hm : m.Inside n) : m.Hoistable :=
  ⟨h.unannotated.inside hm, h.noUnits.inside hm, h.noEvents.inside hm, h.assumptions.inside hm,
    h.names.inside hm⟩

theorem Hoistable.quiet_of_assumption {n c : Node} (h : n.Hoistable) (ht : n.tag = .assumeDecl)
    (hc : c ∈ n.children) : c.Quiet :=
  fun m hm => ⟨h.noUnits.child hc m hm, h.assumptions.self ht c hc m hm⟩

theorem Quiet.inside {n m : Node} (h : n.Quiet) (hm : m.Inside n) : m.Quiet := All.inside h hm

theorem IsPlainName.declarations_eq_nil {n : Node} (h : n.IsPlainName) : n.declarations = [] := by
  obtain ⟨tag, children⟩ := h
  have ordinary : n.tag.isOrdinary = true := by
    rcases tag with ht | ht <;> simp [ht, Tag.isOrdinary]
  rw [declarations_ordinary ordinary, children, List.flatMap_nil]

/-- A typed plain name is a plain name. -/
theorem IsPlainName.withType {n : Node} (h : n.IsPlainName) (ty : Option Ty) :
    (n.withType ty).IsPlainName := h

theorem BecomesOf.tag_ne_eventStatement {n out : Node} (h : n.BecomesOf out)
    (hn : n.tag ≠ .eventStatement) : out.tag ≠ .eventStatement := by
  rcases h.tag with same | ⟨-, event⟩
  · rw [same]
    exact hn
  · simp [event]

theorem BecomesOf.tag_eq_assumeDecls_iff {n out : Node} (h : n.BecomesOf out) :
    out.tag = .assumeDecls ↔ n.tag = .assumeDecls := by
  rcases h.tag with same | ⟨function, event⟩
  · rw [same]
  · simp [function, event]

end Node

/-! ## Nodes that queue nothing -/

namespace Pass

/-- The queue of declarations stays as it is. -/
def KeepsDecls (p : Pass α) : Prop := ∀ env, (p env).env.ledger.decls = env.ledger.decls

theorem KeepsDecls.closed (names : List String) : Closed names fun _ p => p.KeepsDecls where
  pure _ _ := rfl
  bind hp hf env := (hf _ ⟨env, rfl⟩ _).trans (hp env)
  emitAll _ _ := rfl
  readLedger _ _ := rfl
  lookup? _ _ _ := rfl

end Pass

theorem Engine.keepsDecls_visit {e : Engine} (he : e.rules = []) (n : Node) (expected : Option Ty)
    (hn : n.Quiet) : (e.visit n expected).KeepsDecls := by
  refine e.visit_induction he (Q := fun m _ p => m.Quiet → p.KeepsDecls) ?_ ?_ n expected hn
  · intro n _ _ _ env
    rfl
  · intro n t r ht h inside expected hn
    have below : ∀ m : Node, m.Inside n → ∀ ex, (e.visit m ex).KeepsDecls :=
      fun m hm ex => inside m hm ex (hn.inside hm)
    have permits : Pass.Permits (fun _ p => p.KeepsDecls) t := by
      obtain ⟨source, struct, enum⟩ := ht ▸ hn.self
      unfold Pass.Permits
      split
      · exact absurd rfl source
      · exact fun _ _ => rfl
      · exact fun _ _ _ => rfl
      · exact absurd rfl struct
      · exact absurd rfl enum
      · exact fun _ _ => rfl
      · exact ⟨fun _ _ _ => rfl, fun _ => rfl⟩
      · exact fun _ _ _ => rfl
      · trivial
    have closed := Pass.KeepsDecls.closed n.texts
    refine Rule.closed_emit closed _ ?_
    exact closed_rule_of_inside closed h permits (List.Subset.refl _) (visit_head he) below expected

/-! ## Rules and the queue -/

/-- The given declarations are queued, and nodes that wait for guards are plain names. -/
structure Env.Queued (decls : List Node) (env : Env) : Prop where
  decls : env.ledger.decls = decls
  unguarded : ∀ p ∈ env.ledger.unguarded, p.IsPlainName

namespace Pass

/-- The declarations of what comes back are queued after those that were there. -/
def Queues (declared : α → List Node) (p : Pass α) : Prop :=
  ∀ decls, p.Triple (Env.Queued decls) fun a => Env.Queued (decls ++ declared a)

theorem Queues.visitAll {visit : Visitor} {expected : Option Ty} {ms : List Node}
    (h : ∀ m ∈ ms, (visit m expected).Queues Node.declarations) :
    (Rule.visitAll visit ms expected).Queues (·.flatMap Node.declarations) := by
  intro decls
  have loop := Triple.visitAll
    (I := fun done => Env.Queued (decls ++ done.flatMap Node.declarations))
    (fun m hm done => by
      have one := h m hm (decls ++ done.flatMap Node.declarations)
      simpa [List.append_assoc] using one) []
  simpa using loop

/-- Where the queue stays as it is, nothing is declared. -/
theorem Queues.quiet {declared : α → List Node} {p : Pass α} (h : p.Queues declared)
    (keeps : p.KeepsDecls) (decls : List Node) :
    p.Keeps (Env.Queued decls) fun a => declared a = [] := by
  intro env hq
  have after : Env.Queued (decls ++ declared (p env).value) (p env).env := h decls env hq
  have same : decls ++ declared (p env).value = decls := by
    rw [← after.decls, keeps env, hq.decls]
  have none := List.append_right_eq_self.mp same
  refine ⟨none, ?_⟩
  rwa [none, List.append_nil] at after

/-- Some declarations of the node have been queued. When it comes back, all of them have been, in
order. -/
def Hoists (queued : List Node) (p : Pass Node) : Prop :=
  ∀ decls, p.Triple (Env.Queued (decls ++ queued)) fun out => Env.Queued (decls ++ out.declarations)

theorem Hoists.queues {p : Pass Node} (h : p.Hoists []) : p.Queues Node.declarations := by
  intro decls
  have all := h decls
  rwa [List.append_nil] at all

namespace Hoists

variable {queued : List Node}

theorem pure {out : Node} (h : out.declarations = queued) : Hoists queued (pure out) :=
  fun _ => Triple.pure fun _ hq => h ▸ hq

/-- A step that leaves the queue as it is. -/
theorem keep {R : α → Prop} {p : Pass α} {f : α → Pass Node}
    (hp : ∀ decls, p.Keeps (Env.Queued decls) R)
    (hf : ∀ a, p.Returns a → R a → (f a).Hoists queued) : (p >>= f).Hoists queued :=
  fun decls => Triple.bind (hp _) fun a ha => Triple.of_fact fun hr => hf a ha hr decls

theorem emit {q : Pass Node} (e : Event) (hq : q.Hoists queued) :
    Hoists queued (do Pass.emit e; q) :=
  keep (fun _ => Keeps.emit e) fun _ _ _ => hq

theorem bindName {q : Pass Node} (name : String) (ty : Ty) (hq : q.Hoists queued) :
    Hoists queued (do Pass.bindName name ty; q) :=
  keep (fun _ => Keeps.bindName fun _ h => ⟨h.decls, h.unguarded⟩) fun _ _ _ => hq

theorem updateLedger {q : Pass Node} {f : Ledger → Ledger}
    (h : ∀ l, (f l).decls = l.decls ∧ (f l).unguarded = l.unguarded) (hq : q.Hoists queued) :
    Hoists queued (do Pass.updateLedger f; q) := by
  refine keep (fun decls => Keeps.updateLedger fun env henv => ?_) fun _ _ _ => hq
  refine ⟨(h env.ledger).1.trans henv.decls, fun p hp => ?_⟩
  exact henv.unguarded p ((h env.ledger).2 ▸ hp)

theorem addDecl {q : Pass Node} {decl : Node} (hq : q.Hoists (queued ++ [decl])) :
    Hoists queued (do Pass.updateLedger (·.addDecl decl); q) := by
  intro decls
  refine Triple.bind (Triple.updateLedger fun env h => ?_) fun _ _ => hq decls
  refine ⟨?_, h.unguarded⟩
  rw [← List.append_assoc, ← h.decls]
  rfl

theorem bind {declared : α → List Node} {p : Pass α} {f : α → Pass Node} (hp : p.Queues declared)
    (hf : ∀ a, p.Returns a → (f a).Hoists (queued ++ declared a)) : (p >>= f).Hoists queued := by
  intro decls
  have first := hp (decls ++ queued)
  simp only [List.append_assoc] at first
  exact first.bind fun a ha => hf a ha decls

end Hoists

end Pass

namespace Rule

open Pass

variable {n : Node}

/-- Returning a node whose children have queued their declarations in order. -/
theorem hoists_ordinary {out : Node} {queued : List Node} (ht : out.tag.isOrdinary = true)
    (h : out.children.flatMap Node.declarations = queued) : Hoists queued (pure out) :=
  Hoists.pure ((Node.declarations_ordinary ht).trans h)

/-- A node as it came, but for its own marks. -/
theorem hoists_unvisited (hn : n.Unannotated) {out : Node} (hc : out.children = n.children)
    (own : out.declaration = []) : Hoists [] (pure out) := by
  refine Hoists.pure (Node.declarations_eq_nil_of own fun c hm => ?_)
  exact (hn.child (hc ▸ hm)).declarations_eq_nil

theorem hoists_fail (hn : n.Unannotated) (error : Diagnostic) : Hoists [] (pure (n.fail error)) :=
  hoists_unvisited hn rfl (Node.declaration_eq_nil_iff.mpr (.inl hn.self.1))

theorem hoists_resolving {queued : List Node} {name : String} {found : Ty → Pass Node}
    (failed : ∀ error, Hoists queued (pure (n.fail error)))
    (h : ∀ ty, (found ty).Hoists queued) : (resolving n name found).Hoists queued := by
  refine Hoists.keep (fun _ => Keeps.lookup? name) fun ty _ _ => ?_
  cases ty with
  | some ty => exact h ty
  | none => exact Hoists.emit _ (failed _)

theorem awaitGuard_queued (config : Config) (ty : Ty) {name : Node} (h : name.IsPlainName)
    (decls : List Node) :
    (awaitGuard config ty name).Keeps (Env.Queued decls) fun _ => True := by
  unfold awaitGuard
  split
  · refine Keeps.updateLedger fun env hq => ⟨hq.decls, fun p hp => ?_⟩
    rcases List.mem_append.mp hp with hp | hp
    · exact hq.unguarded p hp
    · exact List.mem_singleton.mp hp ▸ h
  · exact Keeps.pure trivial

variable {visit : Visitor} (hn : n.Hoistable) (expected : Option Ty)

section Unvisited

include hn

/-- Children that are not visited have no declarations. -/
theorem rest_declarations (rest : List Node) (h : rest ⊆ n.children) :
    rest.flatMap Node.declarations = [] :=
  Node.flatMap_declarations_eq_nil fun _ hc => hn.unannotated.child (h hc)

theorem hoists_importDecl (ht : n.tag.isOrdinary = true) :
    (importDecl visit n expected).Hoists [] := by
  unfold importDecl
  split
  · split
    · refine Hoists.emit _ (Hoists.updateLedger (fun _ => ⟨rfl, rfl⟩) ?_)
      exact hoists_unvisited hn.unannotated rfl (Node.declaration_ordinary ht)
    · exact hoists_fail hn.unannotated _
  · exact hoists_fail hn.unannotated _

theorem hoists_functionName (ht : n.tag.isOrdinary = true) :
    (functionName visit n expected).Hoists [] := by
  have adopts : Hoists [] (pure (n.adopt expected)) :=
    hoists_unvisited hn.unannotated rfl (Node.declaration_ordinary ht)
  unfold functionName
  split
  · exact Hoists.updateLedger (fun _ => ⟨rfl, rfl⟩) adopts
  · exact adopts

theorem hoists_raw (ht : n.tag.isOrdinary = true) : (raw visit n expected).Hoists [] := by
  refine Hoists.keep (fun _ => Keeps.lookup? n.text) fun ty _ _ => ?_
  cases ty with
  | some ty => exact hoists_unvisited hn.unannotated rfl (Node.declaration_ordinary ht)
  | none =>
    exact Hoists.emit _ (hoists_unvisited hn.unannotated rfl (Node.declaration_ordinary ht))

/-- The name that gets a type from outside is plain. -/
theorem hoists_pair (ht : n.tag = .pair ∨ n.tag = .vPair) :
    (pair visit n expected).Hoists [] := by
  have ordinary : n.tag.isOrdinary = true := by rcases ht with h | h <;> simp [h, Tag.isOrdinary]
  unfold pair
  split
  · rename_i first name rest hc
    have plain : name.IsPlainName := hn.names.self.1 ht name (by simp [hc])
    refine hoists_resolving (hoists_fail hn.unannotated) fun ty => hoists_ordinary ordinary ?_
    have front := (hn.unannotated.child (c := first) (by simp [hc])).declarations_eq_nil
    have tail := rest_declarations hn rest fun c h => by simp [hc, h]
    simp only [List.flatMap_cons, front, (plain.withType _).declarations_eq_nil, tail,
      List.append_nil]
  · exact hoists_fail hn.unannotated _

theorem hoists_fdPair (config : Config) (ht : n.tag = .fdPair) :
    (fdPair config visit n expected).Hoists [] := by
  unfold fdPair
  split
  · exact hoists_fail hn.unannotated _
  · rename_i name hl
    have plain : name.IsPlainName := hn.names.self.2 ht name hl
    refine hoists_resolving (hoists_fail hn.unannotated) fun ty => ?_
    refine Hoists.keep (awaitGuard_queued config ty (plain.withType _)) fun _ _ _ => ?_
    refine hoists_ordinary (by simp [ht, Tag.isOrdinary]) ?_
    have front := rest_declarations hn n.children.dropLast (List.dropLast_subset _)
    have marker : (memoryMarker ty).flatMap Node.declarations = [] := by
      unfold memoryMarker
      split <;> rfl
    simp [front, (plain.withType _).declarations_eq_nil, marker]

end Unvisited

section Children

variable (below : ∀ c ∈ n.children, ∀ ex, (visit c ex).Queues Node.declarations)

include below

/-- Visiting all children of an ordinary node and returning it with them. -/
theorem hoists_each (rebuild : List Node → Node)
    (h : ∀ os, (rebuild os).tag.isOrdinary = true ∧
      (rebuild os).children.flatMap Node.declarations = os.flatMap Node.declarations) :
    Hoists [] (do let os ← visitAll visit n.children expected; return rebuild os) := by
  refine Hoists.bind (Queues.visitAll fun c hc => below c hc expected) fun os _ => ?_
  rw [List.nil_append]
  exact hoists_ordinary (h os).1 (h os).2

theorem hoists_importList (ht : n.tag.isOrdinary = true) :
    (importList visit n expected).Hoists [] := by
  unfold importList
  split
  · exact hoists_ordinary ht rfl
  · exact hoists_each expected below _ fun os => ⟨ht, rfl⟩

theorem hoists_variableDecl (ht : n.tag.isOrdinary = true) :
    (variableDecl visit n expected).Hoists [] := by
  refine Hoists.bind (Queues.visitAll fun c hc => below c hc none) fun os _ => ?_
  refine Hoists.keep (fun _ => Keeps.reads _) fun imports _ _ => hoists_ordinary ht ?_
  have pairs : (imports.map Import.toPair).flatMap Node.declarations = [] := by
    simp [List.flatMap_map, Import.toPair, Node.declarations, Node.declarationsEach,
      processingOrder, Node.declaration, Node.withContext, Node.leaf]
  simp only [Node.adopt, Node.withType, List.flatMap_append, pairs, List.append_nil,
    List.nil_append]

include hn

theorem hoists_assign (ht : n.tag.isOrdinary = true) : (assign visit n expected).Hoists [] := by
  unfold assign
  split
  · rename_i target value rest hc
    have tail := rest_declarations hn rest fun c h => by simp [hc, h]
    refine Hoists.bind (below target (by simp [hc]) none) fun target' _ => ?_
    refine Hoists.bind (below value (by simp [hc]) target'.ty) fun value' _ => ?_
    refine hoists_ordinary ht ?_
    simp only [List.flatMap_cons, tail, List.append_nil, List.nil_append]
  · exact hoists_fail hn.unannotated _

theorem hoists_returnStatement (ht : n.tag.isOrdinary = true) :
    (returnStatement visit n expected).Hoists [] := by
  unfold returnStatement
  split
  · rename_i operand rest hc
    have tail := rest_declarations hn rest fun c h => by simp [hc, h]
    refine Hoists.bind (below operand (by simp [hc]) expected) fun operand' _ => ?_
    have children : (operand' :: rest).flatMap Node.declarations = [] ++ operand'.declarations := by
      simp only [List.flatMap_cons, tail, List.append_nil, List.nil_append]
    dsimp only
    split
    · exact hoists_ordinary ht children
    · exact hoists_resolving (fun _ => hoists_ordinary ht children)
        fun ty => hoists_ordinary ht children
    · exact hoists_ordinary ht children
  · exact hoists_fail hn.unannotated _

theorem hoists_recordStatement (ht : n.tag.isOrdinary = true) :
    (recordStatement visit n expected).Hoists [] := by
  unfold recordStatement
  split
  · rename_i target event rest hc
    have tail := rest_declarations hn (event :: rest) fun c h => by
      simp only [hc]
      exact List.mem_cons_of_mem _ h
    refine Hoists.bind (below target (by simp [hc]) expected) fun target' _ => ?_
    refine Hoists.keep (fun _ => Keeps.reads _) fun display _ _ => hoists_ordinary ht ?_
    have label : (display.toList.map fun text =>
        (Node.leaf .text text).withContext "name").flatMap Node.declarations = [] := by
      cases display <;> rfl
    dsimp only
    rw [List.flatMap_append, label, List.flatMap_cons, tail]
    simp only [List.append_nil, List.nil_append]
  · exact hoists_fail hn.unannotated _

/-- The operand comes first, and indices are visited only if it is a mapping. -/
theorem hoists_mapping {arity : Nat} (ht : IsMapping n.tag arity) :
    (mapping arity visit n expected).Hoists [] := by
  unfold mapping
  split
  · exact hoists_fail hn.unannotated _
  · rename_i operand rest hc
    have split : n.children = n.children.take arity ++ operand :: rest := by
      rw [← hc, List.take_append_drop]
    have enough : (n.children.take arity).length = arity := by
      have drops := congrArg List.length hc
      simp only [List.length_drop, List.length_cons] at drops
      rw [List.length_take]
      omega
    have child : operand ∈ n.children := List.mem_of_mem_drop (hc ▸ List.mem_cons_self)
    have front := rest_declarations hn (n.children.take arity) (List.take_subset _ _)
    have tail := rest_declarations hn rest fun c h => List.mem_of_mem_drop
      (hc ▸ List.mem_cons_of_mem _ h)
    refine Hoists.bind (below operand child none) fun operand' _ => ?_
    split
    · have visits := Queues.visitAll fun c (hm : c ∈ n.children.take arity) =>
        below c (List.mem_of_mem_take hm) none
      refine Hoists.bind visits fun indices hindices => Hoists.pure ?_
      have same := (visitAll_returns hindices).length_eq
      rw [enough] at same
      rw [Node.declarations_mapping (same ▸ ht) rfl, tail, List.append_nil, List.nil_append]
    · refine Hoists.pure ?_
      rw [Node.declarations_mapping (enough.symm ▸ ht) rfl, front, tail]
      simp only [List.append_nil, List.nil_append]

theorem hoists_structDefine (ht : n.tag = .structDefine) :
    (structDefine visit n expected).Hoists [] := by
  unfold structDefine
  split
  · rename_i name fields hc
    have unvisited := (hn.unannotated.child (c := name) (by simp [hc])).declarations_eq_nil
    have visits := Queues.visitAll fun c (hm : c ∈ fields) => below c (by simp [hc, hm]) expected
    refine Hoists.bind visits fun fields' _ => ?_
    refine Hoists.bindName _ _ (Hoists.emit _ (Hoists.addDecl (Hoists.pure ?_)))
    refine Eq.trans (Node.declarations_structDefine ht rfl) ?_
    simp only [Node.adopt, Node.withType, List.flatMap_cons, unvisited, List.nil_append]
  · exact hoists_fail hn.unannotated _

omit hn in
theorem hoists_enumType (config : Config) (ht : n.tag = .enumType) :
    (enumType config visit n expected).Hoists [] := by
  refine Hoists.bind (Queues.visitAll fun c hc => below c hc expected) fun children _ => ?_
  refine Hoists.keep (fun _ => Keeps.reads _) fun generated _ _ => ?_
  refine Hoists.emit _ (Hoists.addDecl (Hoists.pure ?_))
  have leaf : ((Node.leaf .text generated).withContext "name").declarations = [] := rfl
  have all := Node.declarations_enumType
    (n := { n with children := children ++ [(Node.leaf .text generated).withContext "name"] }.adopt
      expected) ht rfl rfl
  rw [leaf, List.append_nil] at all
  exact all

/-- Below an assumption nothing is declared, so its value may be changed afterwards. -/
theorem hoists_assumeDecl (ht : n.tag.isOrdinary = true)
    (quiet : ∀ c ∈ n.children, ∀ ex, (visit c ex).KeepsDecls) :
    (assumeDecl visit n expected).Hoists [] := by
  unfold assumeDecl
  split
  · rename_i name value rest hc
    have one : ∀ c ∈ n.children, ∀ decls,
        (visit c expected).Keeps (Env.Queued decls) fun out => out.declarations = [] :=
      fun c h => (below c h expected).quiet (quiet c h expected)
    have sub : ∀ c ∈ rest, c ∈ n.children := fun c h => by simp [hc, h]
    have all := (Queues.visitAll fun c h => below c (sub c h) expected).quiet
      (closed_visitAll (KeepsDecls.closed []) expected fun c h => quiet c (sub c h) expected)
    refine Hoists.keep (one name (by simp [hc])) fun name' _ hname => ?_
    refine Hoists.keep (one value (by simp [hc])) fun value' _ hvalue => ?_
    refine Hoists.keep all fun rest' _ hrest => ?_
    refine Hoists.emit _ (Hoists.bindName _ _ (hoists_ordinary ht ?_))
    simp only [List.flatMap_cons, hname, Node.declarations_normalizeValue hvalue, hrest,
      List.append_nil]
  · exact hoists_fail hn.unannotated _

end Children

/-! ## Functions -/

theorem guardOf_declarations (config : Config) {p : Node} (h : p.IsPlainName) :
    (guardOf config p).declarations = [] := by
  refine Node.declarations_eq_nil_of rfl fun c hc => ?_
  obtain rfl := List.mem_singleton.mp hc
  refine Node.declarations_eq_nil_of rfl fun c hc => ?_
  simp only [List.mem_cons, List.not_mem_nil, or_false] at hc
  rcases hc with rfl | rfl | rfl
  · exact h.declarations_eq_nil
  · rfl
  · rfl

theorem takeGuards_declares_nothing (config : Config) (decls : List Node) :
    (takeGuards config).Keeps (Env.Queued decls) fun guards =>
      ∀ g ∈ guards, g.tag ≠ .eventStatement ∧ g.declarations = [] := by
  intro env hq
  refine ⟨List.forall_mem_map.mpr fun p hp => ⟨by simp [guardOf], ?_⟩, hq.decls, ?_⟩
  · exact guardOf_declarations config (hq.unguarded p hp)
  · exact fun p hp => absurd hp List.not_mem_nil

theorem markers_declarations (config : Config) (name body : Node) (returns : Ty) :
    (markers config name body returns).flatMap Node.declarations = [] := by
  unfold markers
  rw [List.flatMap_append]
  have first : (if returns.isVoid then [] else
      [((Node.leaf .returnType returns.render).withContext "returns").withType
        (some returns)]).flatMap Node.declarations = [] := by
    split <;> rfl
  rw [first]
  split
  · rfl
  · split <;> rfl

/-- A body keeps its function a function if none of its nodes is an event. -/
theorem endsWithEvent_eq_false {body : Node} (h : ∀ c ∈ body.children, c.tag ≠ .eventStatement) :
    endsWithEvent body = false := by
  unfold endsWithEvent
  cases hl : body.children.getLast? with
  | none => rfl
  | some last => simpa using h last (List.mem_of_getLast? hl)

theorem bodyBlock_noEvent (head : ∀ (m : Node) ex, (visit m ex).Yields m.BecomesOf) {raw : Node}
    {guards : List Node} (hg : ∀ g ∈ guards, g.tag ≠ .eventStatement)
    (hs : ∀ m ∈ statements raw, m.tag ≠ .eventStatement) {body : Node}
    (h : (bodyBlock visit raw guards).Returns body) : endsWithEvent body = false := by
  obtain ⟨_, visited, children, hvisited⟩ := bodyBlock_returns h
  refine endsWithEvent_eq_false fun c hmem => ?_
  rw [children] at hmem
  rcases List.mem_append.mp hmem with hmem | hmem
  · exact hg c hmem
  · obtain ⟨m, hm, hret⟩ := exists_mem_of_forall₂ hvisited hmem
    exact (head m none c hret).tag_ne_eventStatement (hs m hm)

section Function

variable (below : ∀ m : Node, m.Inside n → ∀ ex, (visit m ex).Queues Node.declarations)

include below

theorem hoists_paramBlock {raw : Node} (hr : raw ∈ n.children) :
    (paramBlock visit raw).Hoists [] := by
  have visits := Queues.visitAll fun m (hm : m ∈ params raw) =>
    below m (inside_of_mem_params hr hm) none
  refine Hoists.emit _ (Hoists.bind visits fun os _ => ?_)
  exact hoists_ordinary rfl rfl

theorem hoists_bodyBlock {raw : Node} (hr : raw ∈ n.children) {guards : List Node}
    (hg : ∀ g ∈ guards, g.declarations = []) : (bodyBlock visit raw guards).Hoists [] := by
  have visits := Queues.visitAll fun m (hm : m ∈ statements raw) =>
    below m (inside_of_mem_statements hr hm) none
  refine Hoists.emit _ (Hoists.keep (fun _ => Keeps.emitAll _) fun _ _ _ => ?_)
  refine Hoists.bind visits fun os _ => hoists_ordinary rfl ?_
  have front : guards.flatMap Node.declarations = [] := List.flatMap_eq_nil_iff.mpr hg
  simp only [sealBody, List.flatMap_append, front]

theorem hoists_functionDecl (config : Config) (ht : n.tag = .functionDecl)
    (head : ∀ (m : Node) ex, (visit m ex).Yields m.BecomesOf) (hn : n.Hoistable) :
    (functionDecl config visit n expected).Hoists [] := by
  unfold functionDecl
  split
  · rename_i name next more hc
    have hraw := rawBody_mem_children hc
    have middle := rest_declarations hn (next :: more).dropLast fun c h =>
      hc ▸ List.mem_cons_of_mem _ (List.dropLast_subset _ h)
    refine Hoists.bind (below name (Node.inside_of_child (by simp [hc])) expected) fun name' _ => ?_
    refine Hoists.bind (hoists_paramBlock below hraw).queues fun param _ => ?_
    refine Hoists.keep (takeGuards_declares_nothing config) fun guards _ hguards => ?_
    refine Hoists.keep (fun _ => Keeps.emitAll _) fun _ _ _ => ?_
    have block := hoists_bodyBlock below hraw fun g hg => (hguards g hg).2
    refine Hoists.bind block.queues fun body hbody => ?_
    -- A function that became an event would drop the body with its declarations.
    have noEvent := bodyBlock_noEvent head (fun g hg => (hguards g hg).1)
      (fun m hm => (hn.noEvents.inside (inside_of_mem_statements hraw hm)).self) hbody
    unfold concludeFunction
    refine Hoists.bindName _ _ ?_
    rw [noEvent]
    refine hoists_ordinary (by simp [functionOf_tag, ht, Tag.isOrdinary]) ?_
    rw [functionOf_children]
    simp only [List.flatMap_cons, List.flatMap_append, middle, markers_declarations,
      List.append_nil, List.nil_append, List.append_assoc]
  · exact hoists_fail hn.unannotated _

end Function

end Rule

namespace Engine

open Pass

/-- **A visit queues what it declares.** -/
theorem hoists_visit {e : Engine} (he : e.rules = []) (n : Node) (expected : Option Ty)
    (hn : n.Hoistable) : (e.visit n expected).Hoists [] := by
  refine e.visit_induction he (Q := fun m _ p => m.Hoistable → p.Hoists []) ?_ ?_ n expected hn
  · intro n _ _ hn
    exact Hoists.emit _ (Hoists.pure hn.unannotated.declarations_eq_nil)
  · intro n t r ht h inside expected hn
    have deep : ∀ m : Node, m.Inside n → ∀ ex, (e.visit m ex).Queues Node.declarations :=
      fun m hm ex => (inside m hm ex (hn.inside hm)).queues
    have below := fun c hc => deep c (Node.inside_of_child hc)
    have adopts : n.tag.isOrdinary = true → ∀ ty, Hoists [] (pure (n.withType ty)) :=
      fun h _ => Rule.hoists_unvisited hn.unannotated rfl (Node.declaration_ordinary h)
    refine Hoists.emit _ ?_
    cases h with
    | source => exact absurd ht hn.noUnits.self
    | block | fdParam | wordDefine | assumeDecls =>
      exact Rule.hoists_each expected below _ fun os => ⟨ht ▸ rfl, rfl⟩
    | fdBody => exact Rule.hoists_each none below _ fun os => ⟨ht ▸ rfl, rfl⟩
    | title | eventDecl | completeStatement | intExpr => exact adopts (ht ▸ rfl) _
    | importList => exact Rule.hoists_importList expected below (ht ▸ rfl)
    | importDecl => exact Rule.hoists_importDecl hn expected (ht ▸ rfl)
    | variableDecl => exact Rule.hoists_variableDecl expected below (ht ▸ rfl)
    | vPair => exact Rule.hoists_pair hn expected (.inr ht)
    | pair => exact Rule.hoists_pair hn expected (.inl ht)
    | functionDecl => exact Rule.hoists_functionDecl expected deep e.config ht (visit_head he) hn
    | functionName => exact Rule.hoists_functionName hn expected (ht ▸ rfl)
    | fdPair => exact Rule.hoists_fdPair hn expected e.config ht
    | assign => exact Rule.hoists_assign hn expected below (ht ▸ rfl)
    | returnStatement => exact Rule.hoists_returnStatement hn expected below (ht ▸ rfl)
    | recordStatement => exact Rule.hoists_recordStatement hn expected below (ht ▸ rfl)
    | map1 => exact Rule.hoists_mapping hn expected below (.inl ⟨ht, rfl⟩)
    | map2 => exact Rule.hoists_mapping hn expected below (.inr ⟨ht, rfl⟩)
    | raw => exact Rule.hoists_raw hn expected (ht ▸ rfl)
    | structDefine => exact Rule.hoists_structDefine hn expected below ht
    | enumType => exact Rule.hoists_enumType expected below e.config ht
    | assumeDecl =>
      have quiet := fun c hc ex => keepsDecls_visit he c ex (hn.quiet_of_assumption ht hc)
      exact Rule.hoists_assumeDecl hn expected below (ht ▸ rfl) quiet

end Engine

/-! ## Units -/

namespace Rule

open Pass

variable {visit : Visitor} {n : Node}

/-- The queue of a unit holds the declarations of its children, in the order of their visits. -/
theorem queues_unitChildren
    (below : ∀ c ∈ n.children, ∀ ex, (visit c ex).Queues Node.declarations)
    (head : ∀ (m : Node) ex, (visit m ex).Yields m.BecomesOf) :
    (unitChildren visit n.children).Queues fun os => (unitOrder os).flatMap Node.declarations := by
  intro decls
  unfold unitChildren
  split
  · exact Triple.pure fun _ h => by simpa [unitOrder] using h
  · rename_i last hl
    split
    · rename_i ht
      refine (below last (List.mem_of_getLast? hl) _ decls).bind fun last' hlast => ?_
      have others := Queues.visitAll fun c (hc : c ∈ n.children.dropLast) =>
        below c (List.dropLast_subset _ hc) (some .void)
      refine (others _).bind fun os _ => Triple.pure fun env hq => ?_
      have block := (head last _ last' hlast).tag_eq_assumeDecls_iff.mpr ht
      dsimp only
      rw [unitOrder_assumptions os block, List.flatMap_cons, ← List.append_assoc]
      exact hq
    · rename_i ht
      intro env hq
      have after := Queues.visitAll (fun c hc => below c hc (some .void)) decls env hq
      have plain : unitOrder (visitAll visit n.children (some .void) env).value =
          (visitAll visit n.children (some .void) env).value := by
        refine unitOrder_plain fun o ho hassume => ?_
        have visits := visitAll_returns (returns_self (visitAll visit n.children (some .void)) env)
        obtain ⟨m, hm, hret⟩ := getLast?_of_forall₂ visits ho
        obtain rfl := Option.some.inj (hl.symm.trans hm)
        exact ht ((head last _ o hret).tag_eq_assumeDecls_iff.mp hassume)
      dsimp only
      rw [plain]
      exact after

theorem source_hoists (below : ∀ c ∈ n.children, ∀ ex, (visit c ex).Queues Node.declarations)
    (head : ∀ (m : Node) ex, (visit m ex).Yields m.BecomesOf) (expected : Option Ty) :
    (source visit n expected).Triple (fun _ => True) fun out _ =>
      ∃ others, out.children =
          others ++ [hoistedDecls ((unitOrder others).flatMap Node.declarations)] ∧
        others.length = n.children.length := by
  have start : ∀ env : Env, True → (env.updateLedger fun _ => {}).Queued [] :=
    fun _ _ => ⟨rfl, fun _ hp => absurd hp List.not_mem_nil⟩
  refine Triple.bind (Triple.updateLedger start) fun _ _ => ?_
  refine (Triple.emit _).bind fun _ _ => ?_
  refine (queues_unitChildren below head []).bind fun others hothers => ?_
  intro env hq
  have queue : env.ledger.decls = (unitOrder others).flatMap Node.declarations := hq.decls
  refine ⟨others, ?_, (unitChildren_returns hothers).length_eq.symm⟩
  rw [← queue]
  rfl

end Rule

namespace Engine

/-- **Hoisting.** A unit comes back with one child more, which holds what the typed structures and
enumerations of the other children contribute: in processing order, and each of them once. -/
theorem checkUnit_hoists (config : Config) (tree : Node) (unit : tree.tag = .source)
    (blank : tree.Unannotated) (single : ∀ c ∈ tree.children, c.All fun m => m.tag ≠ .source)
    (noEvents : tree.All fun m => m.tag ≠ .eventStatement) (assumptions : tree.PlainAssumptions)
    (names : tree.PlainNames) :
    ∃ others decls, (checkUnit { config } tree).value.children =
        others ++ [{ tag := .typeDecls, children := decls, context := some "user",
                     ty := some .void }] ∧
      others.length = tree.children.length ∧
      decls = (unitOrder others).flatMap Node.declarations ∧
      decls.Perm ((others.flatMap Node.nodes).flatMap Node.declaration) := by
  have below : ∀ c ∈ tree.children, ∀ ex, (visit { config } c ex).Queues Node.declarations := by
    intro c hc ex
    have parts : c.Hoistable := ⟨blank.child hc, single c hc, noEvents.child hc,
      assumptions.child hc, names.child hc⟩
    exact (hoists_visit rfl c ex parts).queues
  have run : visit { config } tree (some .void) = (do
      Pass.emit (.dispatch tree.tag)
      Rule.source (visit { config }) tree (some .void)) :=
    visit_of_rule rfl (by rw [unit]; rfl) _
  have hoisted := Rule.source_hoists below (visit_head rfl) (some .void) (.ofConfig config) trivial
  obtain ⟨others, children, length⟩ := hoisted
  refine ⟨others, _, ?_, length, rfl, ?_⟩
  · rw [checkUnit, run]
    exact children
  · have reordered := (unitOrder_perm others).flatMap_right Node.declarations
    rw [List.flatMap_assoc]
    exact reordered.trans (List.Perm.flatMap_left _ fun o _ => o.declarations_perm)

/-- A unit with a structure in an enumeration, an access that fails after its operand, and a
structure among trailing assumptions. -/
def nestedUnit : Node :=
  { tag := .source
    children := [
      { tag := .functionDecl
        children := [
          .leaf .nameExpr "init",
          { tag := .block
            children := [
              { tag := .enumType
                children := [
                  { tag := .structDefine, children := [.leaf .text "Point", .leaf .raw "x"] }] },
              { tag := .map1
                children := [
                  { tag := .structDefine, children := [.leaf .text "Index"] },
                  { tag := .structDefine, children := [.leaf .text "Table"] }] }] }] },
      { tag := .assumeDecls
        children := [{ tag := .structDefine, children := [.leaf .text "Rate"] }] }] }

/-- The four structures and enumerations that are visited are hoisted, the index is not. -/
theorem checkUnit_hoists_nested :
    nestedUnit.tag = .source ∧ nestedUnit.Unannotated ∧
    (∀ c ∈ nestedUnit.children, c.All fun m => m.tag ≠ .source) ∧
    (nestedUnit.All fun m => m.tag ≠ .eventStatement) ∧ nestedUnit.PlainAssumptions ∧
    nestedUnit.PlainNames ∧
    ∃ others decls, (checkUnit {} nestedUnit).value.children =
        others ++ [{ tag := .typeDecls, children := decls, context := some "user",
                     ty := some .void }] ∧
      others.length = 2 ∧ decls = (unitOrder others).flatMap Node.declarations ∧
      decls.length = 4 := by
  have blank : nestedUnit.Unannotated := by decide
  have single : ∀ c ∈ nestedUnit.children, c.All fun m => m.tag ≠ .source := by decide
  have noEvents : nestedUnit.All fun m => m.tag ≠ .eventStatement := by decide
  have assumptions : nestedUnit.PlainAssumptions := by decide
  have names : nestedUnit.PlainNames := by decide
  obtain ⟨others, decls, children, length, order, _⟩ :=
    checkUnit_hoists {} nestedUnit rfl blank single noEvents assumptions names
  have count : (checkUnit {} nestedUnit).value.children.getLast?.map (·.children.length) =
      some 4 := rfl
  rw [children, List.getLast?_concat] at count
  exact ⟨rfl, blank, single, noEvents, assumptions, names, others, decls, children, length, order,
    Option.some.inj count⟩

end Engine

end ContractTyping
