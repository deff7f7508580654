import ContractTyping.Proofs.Provenance

/-!
Histories of runs. A history takes a computation apart into steps, each of which adds an entry to
the ledger together with its event or leaves imports and declarations as they are, and lists the
declaration scopes that are processed on the way. Main statement: `Engine.orderly_visit`, every
visit of a tree without units has a history.
-/

namespace ContractTyping

/-- A declaration scope as it is given and as it comes back, and the imports that are recorded by
then. -/
structure DeclScope where
  given : Node
  returned : Node
  imports : List Import

/-- The nodes that are appended to the children of a scope. -/
def DeclScope.bound (s : DeclScope) : List Node := s.returned.children.drop s.given.children.length

namespace Engine

/-- The computation, started in the environment, processes the scopes in the order in which they
come back. -/
inductive History (e : Engine) : {α : Type} → Pass α → Env → List DeclScope → Prop
  | pure {α : Type} (a : α) (env : Env) : History e (Pure.pure a) env []
  | bind {α β : Type} {p : Pass α} {f : α → Pass β} {env : Env} {first second : List DeclScope}
      (before : History e p env first) (after : History e (f (p env).value) (p env).env second) :
      History e (p >>= f) env (first ++ second)
  | emitAll {events : List Event} (plain : ∀ event ∈ events, event.isEntry = false) (env : Env) :
      History e (Pass.emitAll events) env []
  | asks {α : Type} (f : Env → α) (env : Env) : History e (Pass.asks f) env []
  | bindName (name : String) (ty : Ty) (env : Env) : History e (Pass.bindName name ty) env []
  | note {f : Ledger → Ledger} (imports : ∀ l, (f l).imports = l.imports)
      (decls : ∀ l, (f l).decls = l.decls) (env : Env) : History e (Pass.updateLedger f) env []
  | record {symbol : String} {i : Import} (name : i.encodedName = ImportName.encode symbol)
      (env : Env) :
      History e (do
        Pass.emit (.recordedImport symbol i.encodedName)
        Pass.updateLedger (·.addImport i)) env []
  | queue {event : Event} {d : Node} (declares : event.Declares d) (env : Env) :
      History e (do Pass.emit event; Pass.updateLedger (·.addDecl d)) env []
  | scope {n : Node} {expected : Option Ty} {env : Env} {inner : List DeclScope}
      (kind : n.tag = .variableDecl)
      (within : History e (Rule.variableDecl e.visit n expected) env inner) :
      History e (e.visit n expected) env (inner ++
        [⟨n, (e.visit n expected env).value, (e.visit n expected env).env.ledger.imports⟩])

/-- The computation has a history from every environment. -/
def Orderly (e : Engine) (p : Pass α) : Prop := ∀ env, ∃ scopes, e.History p env scopes

namespace Orderly

variable {e : Engine}

theorem pure (a : α) : e.Orderly (Pure.pure a) := fun env => ⟨[], .pure a env⟩

theorem bind {p : Pass α} {f : α → Pass β} (hp : e.Orderly p)
    (hf : ∀ env, e.Orderly (f (p env).value)) : e.Orderly (p >>= f) := by
  intro env
  obtain ⟨first, before⟩ := hp env
  obtain ⟨second, after⟩ := hf env (p env).env
  exact ⟨first ++ second, .bind before after⟩

theorem seq {p : Pass α} {q : Pass β} (hp : e.Orderly p) (hq : e.Orderly q) :
    e.Orderly (do let _ ← p; q) :=
  hp.bind fun _ => hq

theorem emitAll {events : List Event} (plain : ∀ event ∈ events, event.isEntry = false) :
    e.Orderly (Pass.emitAll events) :=
  fun env => ⟨[], .emitAll plain env⟩

/-- A visit of anything but a declaration scope starts with an event that tells of no entry. -/
theorem dispatch {t : Tag} (kind : t ≠ .variableDecl) : e.Orderly (Pass.emit (.dispatch t)) := by
  have plain : ∀ event ∈ [Event.dispatch t], event.isEntry = false :=
    List.forall_mem_singleton.mpr (beq_false_of_ne kind)
  exact emitAll plain

theorem asks (f : Env → α) : e.Orderly (Pass.asks f) := fun env => ⟨[], .asks f env⟩

theorem note {f : Ledger → Ledger} (imports : ∀ l, (f l).imports = l.imports)
    (decls : ∀ l, (f l).decls = l.decls) : e.Orderly (Pass.updateLedger f) :=
  fun env => ⟨[], .note imports decls env⟩

theorem awaitGuard (config : Config) (ty : Ty) (p : Node) :
    e.Orderly (Rule.awaitGuard config ty p) := by
  unfold Rule.awaitGuard
  split
  · exact note (fun _ => rfl) fun _ => rfl
  · exact pure ()

theorem takeGuards (config : Config) : e.Orderly (Rule.takeGuards config) := by
  refine (asks _).bind fun env => seq (note (fun _ => rfl) fun _ => rfl) ?_
  exact (emitAll (List.forall_mem_map.mpr fun _ _ => rfl)).seq (pure _)

theorem announceGuards (function : String) (guards : List Node) :
    e.Orderly (Rule.announceGuards function guards) := by
  refine emitAll ?_
  split
  · simp
  · simp [Event.isEntry]

theorem visit (he : e.rules = []) {n : Node} {expected : Option Ty} {r : Rule}
    (hr : e.rule? n.tag = some r) (h : e.Orderly (r e.visit n expected)) :
    e.Orderly (e.visit n expected) := by
  by_cases kind : n.tag = .variableDecl
  · intro env
    obtain ⟨inner, within⟩ := h env
    have same : r = Rule.variableDecl := Option.some.inj (hr.symm.trans (kind ▸ rfl))
    subst same
    exact ⟨_, .scope kind within⟩
  · rw [visit_of_rule he hr]
    exact (dispatch kind).seq h

theorem idle (he : e.rules = []) {n : Node} (h : e.rule? n.tag = none) (expected : Option Ty) :
    e.Orderly (e.visit n expected) := by
  have kind : n.tag ≠ .variableDecl := by
    intro kind
    rw [kind] at h
    cases h
  rw [visit_of_idle he h]
  exact (dispatch kind).seq (pure n)

end Orderly

end Engine

/-! ## Every visit has a history -/

namespace Comparison

/-- A run beside itself, with a history of the first. -/
def ordered (e : Engine) : Comparison where
  relabeling := .id
  node := (relabeled .id).node
  body := (relabeled .id).body
  guards := (relabeled .id).guards
  run := fun V p q => (relabeled .id).run V p q ∧ e.Orderly p

theorem alike_self (env : Env) :
    Env.Alike (fun n n' => n' = n.relabel .id) (fun ps ps' => ps' = ps.map (Node.relabel .id)) env
      env :=
  ⟨rfl, rfl, rfl, List.forall₂_same.mpr fun n _ => n.relabel_id.symm, (Node.map_relabel_id _).symm⟩

theorem lawful_ordered (config : Config) : Lawful (ordered { config }) { config } { config } := by
  have law := lawful_relabeled .id config
  exact {
    renamed := law.renamed
    text := law.text
    leaf := law.leaf
    constructor := law.constructor
    untouched := law.untouched
    rebuilt := fun h => law.rebuilt ⟨h.head, h.children⟩
    function := law.function
    sealed := law.sealed
    guardKinds := law.guardKinds
    awaitGuard := fun ty p _ same => ⟨law.awaitGuard ty same, .awaitGuard config ty p⟩
    takeGuards := ⟨law.takeGuards, .takeGuards config⟩
    announceGuards := fun function gs _ same =>
      ⟨law.announceGuards function same, .announceGuards function gs⟩
    passOver := fun same => by
      have kinds := (law.guardKinds same).1
      refine ⟨law.passOver same, .emitAll (List.forall_mem_map.mpr fun g hg => ?_)⟩
      rw [kinds g hg]
      rfl
    pure := fun h => ⟨law.pure h, .pure _⟩
    bind := fun {_ _ _ _ _ _ p _ _ _} hp hf => by
      refine ⟨law.bind hp.1 fun a b ha hv => (hf a b ha hv).1, hp.2.bind fun env => ?_⟩
      -- The other run starts in the same environment, so its value belongs to that of the first.
      have value := (hp.1 env env (alike_self env)).1
      exact (hf _ _ (p.returns_self env) value).2
    emitAll := fun events plain => ⟨law.emitAll events plain, .emitAll plain⟩
    lookup? := fun name => ⟨law.lookup? name, .asks _⟩
    bindName := fun name ty => ⟨law.bindName name ty, fun env => ⟨[], .bindName name ty env⟩⟩
    imports := ⟨law.imports, .asks _⟩
    displayName? := fun name => ⟨law.displayName? name, .asks _⟩
    enumName := ⟨law.enumName, .asks _⟩
    addDisplayName := fun name display =>
      ⟨law.addDisplayName name display, .note (fun _ => rfl) fun _ => rfl⟩
    recordImport := fun symbol i name =>
      ⟨law.recordImport symbol i name, fun env => ⟨[], .record name env⟩⟩
    queueDecl := fun event _ _ same declares declares' =>
      ⟨law.queueDecl event same declares declares', fun env => ⟨[], .queue declares env⟩⟩
    idle := fun expected same tag idle =>
      ⟨law.idle expected same tag idle, .idle rfl idle expected⟩
    visit := fun tag hr hr' below => ⟨law.visit tag hr hr' below.1, .visit rfl hr below.2⟩ }

end Comparison

namespace Engine

theorem ordered_visit (config : Config) (n : Node) (expected : Option Ty)
    (free : n.All (·.tag ≠ .source)) :
    (Comparison.ordered { config }).run (Comparison.ordered { config }).node
      (visit { config } n expected) (visit { config } (n.relabel .id) expected) := by
  refine Comparison.like_visit (Comparison.lawful_ordered config)
    (H := Node.All (·.tag ≠ .source)) ?_ ?_ rfl (fun h hm => h.inside hm) n expected free
  · rintro n c o o' ex - - - - rfl
    exact ⟨o.normalizeValue_relabel, by rw [Node.normalizeValue_relabel, Node.literalType_relabel]⟩
  · exact fun h ht => absurd ht h.self

theorem orderly_visit (config : Config) (n : Node) (expected : Option Ty)
    (free : n.All (·.tag ≠ .source)) : Orderly { config } (visit { config } n expected) :=
  (ordered_visit config n expected free).2

theorem orderly_unitChildren (config : Config) (n : Node)
    (free : ∀ c ∈ n.children, c.All (·.tag ≠ .source)) :
    Orderly { config } (Rule.unitChildren (visit { config }) n.children) :=
  (Comparison.like_unitChildren (Comparison.lawful_ordered config)
    fun c hc ex => ordered_visit config c ex (free c hc)).2

end Engine

end ContractTyping
