import ContractTyping.Proofs.Relabeling
import ContractTyping.Proofs.Visit

/-!
Two runs of the pass side by side. A comparison says which nodes of the two runs belong together,
and which computations do, given what must hold of their values. It is lawful when it holds of the
steps that rules are made of. Main statement: `Comparison.like_visitAll`, the loop over nodes.
-/

namespace ContractTyping

namespace Event

/-- Events that tell of an entry in the ledger, of its declarations being taken, or of a scope in
which imports are bound. -/
def isEntry : Event → Bool
  | dispatch tag => tag == .variableDecl
  | recordedImport _ _ | queuedStruct _ | queuedEnum _ | hoisted _ => true
  | _ => false

/-- The event tells of the declaration. -/
def Declares : Event → Node → Prop
  | queuedStruct name, d => d.tag = .structDefine ∧ d.children.head?.map Node.text = some name
  | queuedEnum name, d => d.tag = .enumDefine ∧ d.children[1]?.map Node.text = some name
  | _, _ => False

end Event

structure Comparison where
  /-- What the second run finds renamed. -/
  relabeling : Relabeling
  /-- Nodes that come back. -/
  node : Node → Node → Prop
  /-- Bodies of functions. -/
  body : Node → Node → Prop
  /-- Guards of functions. -/
  guards : List Node → List Node → Prop
  /-- Computations, by what must hold of their values. -/
  run : {α β : Type} → (α → β → Prop) → Pass α → Pass β → Prop

namespace Comparison

/-- Own fields are relabelled, and the children belong together one by one. -/
structure Like (K : Comparison) (n n' : Node) : Prop where
  head : n.Renamed K.relabeling n'
  children : List.Forall₂ K.node n.children n'.children

/-- Blocks with guards in front. What is read off a body is the same for both. -/
structure LikeBody (K : Comparison) (b b' : Node) : Prop where
  body : K.body b b'
  ty : b'.ty = b.ty
  event : Rule.endsWithEvent b' = Rule.endsWithEvent b
  readOnly : Rule.isReadOnly b' = Rule.isReadOnly b

/-- A literal and its reading, after widths have been fixed. -/
structure LikeLiteral (K : Comparison) (v v' : Node) : Prop where
  node : K.node v.normalizeValue v'.normalizeValue
  ty : v'.normalizeValue.literalType = v.normalizeValue.literalType

/-- What is asked of the nodes of a comparison. -/
structure LawfulNodes (K : Comparison) (e e' : Engine) : Prop where
  renamed : ∀ {n n' : Node}, K.node n n' → n.Renamed K.relabeling n'
  text : ∀ {n n' : Node}, K.node n n' → n'.text = n.text
  leaf : ∀ {n n' : Node}, K.node n n' → (n'.children = [] ↔ n.children = [])
  constructor : ∀ {n n' : Node}, K.node n n' →
    Rule.isConstructor e'.config n' = Rule.isConstructor e.config n
  untouched : ∀ n, K.node n (n.relabel K.relabeling)
  rebuilt : ∀ {n n' : Node}, K.Like n n' → K.node n n'
  function : ∀ {n n' name name' param param' body body' : Node}
    {middle middle' markers : List Node}, n.tag = .functionDecl → n.Renamed K.relabeling n' →
    n.children = name :: (middle ++ param :: body :: markers) →
    n'.children = name' :: (middle' ++ param' :: body' :: markers) → K.node name name' →
    List.Forall₂ K.node middle middle' → K.node param param' → K.body body body' →
    List.Forall₂ K.node markers markers → K.node n n'
  sealed : ∀ {b b' : Node} {gs gs' os os' : List Node}, b.tag = .fdBody → b.payload = none →
    b.Renamed K.relabeling b' → b.children = gs ++ os → b'.children = gs' ++ os' →
    K.guards gs gs' → List.Forall₂ K.node os os' → K.body b b'
  guardKinds : ∀ {gs gs' : List Node}, K.guards gs gs' →
    (∀ g ∈ gs, g.tag = .require) ∧ ∀ g ∈ gs', g.tag = .require

/-- How a comparison treats guards. -/
structure LawfulGuards (K : Comparison) (e e' : Engine) : Prop where
  awaitGuard : ∀ (ty : Ty) {p p' : Node}, K.node p p' →
    K.run (fun _ _ => True) (Rule.awaitGuard e.config ty p) (Rule.awaitGuard e'.config ty p')
  takeGuards : K.run K.guards (Rule.takeGuards e.config) (Rule.takeGuards e'.config)
  announceGuards : ∀ (function : String) {gs gs' : List Node}, K.guards gs gs' →
    K.run (fun _ _ => True) (Rule.announceGuards function gs) (Rule.announceGuards function gs')
  passOver : ∀ {gs gs' : List Node}, K.guards gs gs' → K.run (fun _ _ => True)
    (Pass.emitAll (gs.map fun g => .dispatch g.tag))
    (Pass.emitAll (gs'.map fun g => .dispatch g.tag))

/-- What is asked of the computations of a comparison, units apart: it holds of the steps that rules
are made of, and with computations also of what runs one after the other. -/
structure LawfulRuns (K : Comparison) (e e' : Engine) : Prop extends LawfulGuards K e e' where
  pure : ∀ {α β : Type} {V : α → β → Prop} {a : α} {b : β}, V a b → K.run V (pure a) (pure b)
  bind : ∀ {α β α' β' : Type} {V : α → β → Prop} {W : α' → β' → Prop} {p : Pass α} {q : Pass β}
    {f : α → Pass α'} {g : β → Pass β'}, K.run V p q →
    (∀ a b, p.Returns a → V a b → K.run W (f a) (g b)) → K.run W (p >>= f) (q >>= g)
  emitAll : ∀ (events : List Event), (∀ event ∈ events, event.isEntry = false) →
    K.run (fun _ _ => True) (Pass.emitAll events) (Pass.emitAll events)
  lookup? : ∀ name, K.run Eq (Pass.lookup? name) (Pass.lookup? name)
  bindName : ∀ name ty, K.run (fun _ _ => True) (Pass.bindName name ty) (Pass.bindName name ty)
  imports : K.run Eq (Pass.asks (·.ledger.imports)) (Pass.asks (·.ledger.imports))
  displayName? : ∀ name, K.run Eq (Pass.asks (·.ledger.displayName? name))
    (Pass.asks (·.ledger.displayName? name))
  enumName : K.run Eq (Pass.asks fun env => Rule.enumName e.config env.ledger.decls)
    (Pass.asks fun env => Rule.enumName e'.config env.ledger.decls)
  addDisplayName : ∀ name display, K.run (fun _ _ => True)
    (Pass.updateLedger (·.addDisplayName name display))
    (Pass.updateLedger (·.addDisplayName name display))
  recordImport : ∀ (symbol : String) (i : Import), i.encodedName = ImportName.encode symbol →
    K.run (fun _ _ => True)
      (do Pass.emit (.recordedImport symbol i.encodedName); Pass.updateLedger (·.addImport i))
      (do Pass.emit (.recordedImport symbol i.encodedName); Pass.updateLedger (·.addImport i))
  queueDecl : ∀ (event : Event) {d d' : Node}, K.node d d' → event.Declares d → event.Declares d' →
    K.run (fun _ _ => True) (do Pass.emit event; Pass.updateLedger (·.addDecl d))
      (do Pass.emit event; Pass.updateLedger (·.addDecl d'))
  idle : ∀ {n n' : Node} (expected : Option Ty), K.node n n' → n'.tag = n.tag →
    e.rule? n.tag = none → K.run K.node (e.visit n expected) (e'.visit n' expected)
  visit : ∀ {n n' : Node} {expected : Option Ty} {r r' : Rule}, n'.tag = n.tag →
    e.rule? n.tag = some r → e'.rule? n.tag = some r' →
    K.run K.node (r e.visit n expected) (r' e'.visit n' expected) →
    K.run K.node (e.visit n expected) (e'.visit n' expected)

structure Lawful (K : Comparison) (e e' : Engine) : Prop extends
  LawfulNodes K e e', LawfulRuns K e e'

/-- What the rule of units asks of a comparison. -/
structure LawfulUnits (K : Comparison) : Prop where
  reset : K.run (fun _ _ => True) (Pass.updateLedger fun _ => {}) (Pass.updateLedger fun _ => {})
  emit : ∀ event, K.run (fun _ _ => True) (Pass.emit event) (Pass.emit event)
  takeDecls : K.run (List.Forall₂ K.node) Rule.takeDecls Rule.takeDecls

variable {K : Comparison} {n n' : Node}

/-! ## Nodes -/

namespace Like

theorem fail (h : K.Like n n') (d : Diagnostic) :
    K.Like (n.fail d) (n'.fail (d.mapSpan K.relabeling.span)) :=
  ⟨h.head.fail d, h.children⟩

theorem withType (h : K.Like n n') (ty : Option Ty) : K.Like (n.withType ty) (n'.withType ty) :=
  ⟨⟨h.head.tag, h.head.payload, rfl, h.head.context, h.head.error, h.head.done, h.head.span⟩,
    h.children⟩

theorem adopt (h : K.Like n n') (expected : Option Ty) :
    K.Like (n.adopt expected) (n'.adopt expected) :=
  h.withType _

theorem finish (h : K.Like n n') : K.Like n.finish n'.finish :=
  ⟨⟨h.head.tag, h.head.payload, h.head.ty, h.head.context, h.head.error, rfl, h.head.span⟩,
    h.children⟩

theorem withChildren (h : K.Like n n') {cs cs' : List Node} (hc : List.Forall₂ K.node cs cs') :
    K.Like { n with children := cs } { n' with children := cs' } :=
  ⟨⟨h.head.tag, h.head.payload, h.head.ty, h.head.context, h.head.error, h.head.done, h.head.span⟩,
    hc⟩

theorem unresolved (h : K.Like n n') (name : String) :
    K.Like (n.fail (.unresolvedName name n.span)) (n'.fail (.unresolvedName name n'.span)) := by
  rw [h.head.span]
  exact h.fail (.unresolvedName name n.span)

theorem lacking (h : K.Like n n') (count : UInt64) :
    K.Like (n.lacking count) (n'.lacking count) := by
  unfold Node.lacking
  rw [h.head.span, h.head.tag]
  exact h.fail (.missingChild n.tag.name count n.span)

end Like

/-- Lists that belong together end together. -/
theorem getLast?_like {os os' : List Node} (h : List.Forall₂ K.node os os') :
    os.getLast? = none ∧ os'.getLast? = none ∨
      ∃ o o', os.getLast? = some o ∧ os'.getLast? = some o' ∧ K.node o o' := by
  cases hl : os'.getLast? with
  | none =>
    rw [List.getLast?_eq_none_iff] at hl
    subst hl
    cases h
    exact .inl ⟨rfl, rfl⟩
  | some o' =>
    obtain ⟨o, ho, hr⟩ := getLast?_of_forall₂ h hl
    exact .inr ⟨o, o', ho, rfl, hr⟩

section Lawful

variable {e e' : Engine} (h : K.Lawful e e')

include h

theorem like_untouched (n : Node) : K.Like n (n.relabel K.relabeling) := by
  refine ⟨n.renamed_relabel, ?_⟩
  rw [Node.relabel_children, List.forall₂_map_right_iff]
  exact List.forall₂_same.mpr fun c _ => h.untouched c

theorem forall₂_untouched (ns : List Node) :
    List.Forall₂ K.node ns (ns.map (Node.relabel K.relabeling)) := by
  rw [List.forall₂_map_right_iff]
  exact List.forall₂_same.mpr fun c _ => h.untouched c

/-- A node that both runs make themselves. -/
theorem node_made (made : n.relabel K.relabeling = n) : K.node n n := by
  have same := h.untouched n
  rwa [made] at same

theorem types_like {os os' : List Node} (ho : List.Forall₂ K.node os os') :
    Node.types os' = Node.types os := by
  induction ho with
  | nil => rfl
  | cons one _ ih =>
    simp only [Node.types, List.map_cons, (h.renamed one).ty] at ih ⊢
    rw [ih]

theorem tags_like {os os' : List Node} (ho : List.Forall₂ K.node os os') :
    os'.map Node.tag = os.map Node.tag := by
  induction ho with
  | nil => rfl
  | cons one _ ih => rw [List.map_cons, List.map_cons, ih, (h.renamed one).tag]

theorem resultType_like {os os' : List Node} (hos : List.Forall₂ K.node os os') :
    Rule.resultType os' = Rule.resultType os := by
  unfold Rule.resultType
  rcases getLast?_like hos with ⟨ho, ho'⟩ | ⟨o, o', ho, ho', same⟩
  · rw [ho, ho']
  · rw [ho, ho']
    dsimp only
    rw [(h.renamed same).tag, (h.renamed same).ty]

/-! ## Steps -/

theorem like_seq {α β α' β' : Type} {W : α' → β' → Prop} {p : Pass α} {q : Pass β} {p' : Pass α'}
    {q' : Pass β'} (hp : K.run (fun _ _ => True) p q) (hq : K.run W p' q') :
    K.run W (do let _ ← p; p') (do let _ ← q; q') :=
  h.bind hp fun _ _ _ _ => hq

theorem like_emit {α β : Type} {W : α → β → Prop} {p : Pass α} {q : Pass β} {event event' : Event}
    (same : event' = event) (plain : event.isEntry = false) (hq : K.run W p q) :
    K.run W (do Pass.emit event; p) (do Pass.emit event'; q) := by
  subst same
  exact like_seq h (h.emitAll [event'] (by simpa using plain)) hq

theorem like_return (hn : K.Like n n') : K.run K.node (pure n) (pure n') := h.pure (h.rebuilt hn)

theorem like_resolving {m m' : Node} (hm : K.Like m m') (name : String)
    {found found' : Ty → Pass Node} (hf : ∀ ty, K.run K.node (found ty) (found' ty)) :
    K.run K.node (Rule.resolving m name found) (Rule.resolving m' name found') := by
  refine h.bind (h.lookup? name) fun ty ty' _ same => ?_
  subst same
  cases ty with
  | some ty => exact hf ty
  | none =>
    refine like_emit h ?_ rfl (like_return h (hm.unresolved name))
    rw [hm.head.tag]

theorem like_visitAll {v v' : Visitor} {ms : List Node} {expected : Option Ty}
    (below : ∀ m ∈ ms, K.run K.node (v m expected) (v' (m.relabel K.relabeling) expected)) :
    K.run (List.Forall₂ K.node) (Rule.visitAll v ms expected)
      (Rule.visitAll v' (ms.map (Node.relabel K.relabeling)) expected) := by
  induction ms with
  | nil => exact h.pure .nil
  | cons m ms ih =>
    have tail := ih fun k hk => below k (List.mem_cons_of_mem _ hk)
    refine h.bind (below m List.mem_cons_self) fun o o' _ ho => ?_
    exact h.bind tail fun os os' _ hos => h.pure (.cons ho hos)

end Lawful

end Comparison

end ContractTyping
