import ContractTyping.Proofs.Closure
import Mathlib.Data.List.Nodup

/-!
Locality of names. Two environments agree on some names when they have the same ledger and give
these names the same types. Main statement: `Engine.local_visit`, a visit looks names up by the
texts of the tree only. From environments that agree on those it returns the same node, writes the
same log, and binds the same names.
-/

namespace ContractTyping

namespace Env

/-- Binds names in order, so that a later binding shadows an earlier one. -/
def bindAll (env : Env) (bindings : List (String × Ty)) : Env :=
  bindings.foldl (fun env b => env.bind b.1 b.2) env

/-- Same ledger, and the same types for the given names. -/
structure AgreeOn (names : List String) (env₁ env₂ : Env) : Prop where
  ledger : env₁.ledger = env₂.ledger
  lookup : ∀ s ∈ names, env₁.lookup? s = env₂.lookup? s

theorem scope_bindAll (env : Env) (bindings : List (String × Ty)) :
    (env.bindAll bindings).scope = bindings.reverse ++ env.scope := by
  induction bindings generalizing env with
  | nil => rfl
  | cons b bindings ih =>
    have tail := ih (env.bind b.1 b.2)
    simpa [bindAll, bind] using tail

variable {names : List String} {env₁ env₂ : Env}

theorem AgreeOn.bind (h : AgreeOn names env₁ env₂) (name : String) (ty : Ty) :
    AgreeOn names (env₁.bind name ty) (env₂.bind name ty) := by
  refine ⟨h.ledger, fun s hs => ?_⟩
  rw [lookup?_bind, lookup?_bind, h.lookup s hs]

theorem AgreeOn.bindAll (h : AgreeOn names env₁ env₂) (bindings : List (String × Ty)) :
    AgreeOn names (env₁.bindAll bindings) (env₂.bindAll bindings) := by
  induction bindings generalizing env₁ env₂ with
  | nil => exact h
  | cons b bindings ih => exact ih (h.bind b.1 b.2)

end Env

/-- Two outcomes that differ in the scopes they started from and in nothing else. -/
structure Outcome.Alike (env₁ env₂ : Env) (bindings : List (String × Ty)) (out₁ out₂ : Outcome α) :
    Prop where
  value : out₁.value = out₂.value
  log : out₁.log = out₂.log
  ledger : out₁.env.ledger = out₂.env.ledger
  left : out₁.env.scope = (env₁.bindAll bindings).scope
  right : out₂.env.scope = (env₂.bindAll bindings).scope

theorem Outcome.Alike.agreeOn {names : List String} {env₁ env₂ : Env}
    {bindings : List (String × Ty)} {out₁ out₂ : Outcome α}
    (h : Alike env₁ env₂ bindings out₁ out₂) (start : env₁.AgreeOn names env₂) :
    out₁.env.AgreeOn names out₂.env := by
  refine ⟨h.ledger, fun s hs => ?_⟩
  have same := (start.bindAll bindings).lookup s hs
  simpa only [Env.lookup?, h.left, h.right] using same

namespace Pass

/-- Environments that agree on the names lead to the same value, log, ledger and new bindings. -/
def Local (names : List String) (p : Pass α) : Prop :=
  ∀ env₁ env₂, env₁.AgreeOn names env₂ →
    ∃ bindings, (p env₁).Alike env₁ env₂ bindings (p env₂)

namespace Local

variable {names : List String} {p : Pass α}

theorem mono {more : List String} (h : p.Local names) (hs : names ⊆ more) : p.Local more :=
  fun env₁ env₂ agree => h env₁ env₂ ⟨agree.ledger, fun s hn => agree.lookup s (hs hn)⟩

/-- Reading from the environment what both environments hold. -/
theorem asks {f : Env → α} (h : ∀ env₁ env₂, env₁.AgreeOn names env₂ → f env₁ = f env₂) :
    (Pass.asks f).Local names :=
  fun env₁ env₂ agree => ⟨[], h env₁ env₂ agree, rfl, agree.ledger, rfl, rfl⟩

theorem pure (a : α) : Local names (pure a : Pass α) :=
  fun _ _ agree => ⟨[], rfl, rfl, agree.ledger, rfl, rfl⟩

theorem emitAll (es : List Event) : (Pass.emitAll es).Local names :=
  fun _ _ agree => ⟨[], rfl, rfl, agree.ledger, rfl, rfl⟩

theorem lookup? {name : String} (h : name ∈ names) : (Pass.lookup? name).Local names :=
  asks fun _ _ agree => agree.lookup name h

theorem bindName (name : String) (ty : Ty) : (Pass.bindName name ty).Local names :=
  fun _ _ agree => ⟨[(name, ty)], rfl, rfl, agree.ledger, rfl, rfl⟩

theorem updateLedger (f : Ledger → Ledger) : (Pass.updateLedger f).Local names :=
  fun _ _ agree => ⟨[], rfl, rfl, congrArg f agree.ledger, rfl, rfl⟩

theorem bind {f : α → Pass β} (hp : p.Local names) (hf : ∀ a, p.Returns a → (f a).Local names) :
    (p >>= f).Local names := by
  intro env₁ env₂ agree
  obtain ⟨bs, first⟩ := hp env₁ env₂ agree
  obtain ⟨cs, second⟩ := hf _ (p.returns_self env₁) _ _ (first.agreeOn agree)
  refine ⟨bs ++ cs, ?_, ?_, ?_, ?_, ?_⟩
  · simpa [first.value] using second.value
  · simpa [first.value, first.log] using second.log
  · simpa [first.value] using second.ledger
  · have left := second.left
    rw [Env.scope_bindAll, first.left] at left
    simpa [Env.scope_bindAll] using left
  · have right := second.right
    rw [Env.scope_bindAll, first.right, first.value] at right
    simpa [Env.scope_bindAll] using right

theorem closed : Closed names fun _ p => p.Local names where
  pure := pure
  bind := bind
  emitAll := emitAll
  readLedger f := asks fun _ _ agree => congrArg f agree.ledger
  lookup? _ h := lookup? h

end Local

end Pass

theorem Engine.local_visit {e : Engine} (he : e.rules = []) (n : Node) (expected : Option Ty) :
    (e.visit n expected).Local n.texts := by
  refine e.visit_induction he (Q := fun m _ p => p.Local m.texts) ?_ ?_ n expected
  · intro n _ _
    exact (Pass.Local.emitAll _).bind fun _ _ => .pure n
  · intro n t r _ h inside expected
    have below : ∀ m : Node, m.Inside n → ∀ ex, (e.visit m ex).Local n.texts :=
      fun m hm ex => (inside m hm ex).mono hm.texts_subset
    have permits : Pass.Permits (fun _ p => p.Local n.texts) t := by
      cases t <;> simp [Pass.Permits, Pass.Local.updateLedger, Pass.Local.bindName]
    refine Rule.closed_emit Pass.Local.closed _ ?_
    exact closed_rule_of_inside Pass.Local.closed h permits (List.Subset.refl _) (visit_head he)
      below expected

namespace Engine

/-! ## The prelude -/

/-- Rules read settings of the engine, but not the prelude, which is the scope to start from. -/
theorem rule?_prelude (config : Config) (bindings : List (String × Ty)) (t : Tag) :
    rule? { config := { config with prelude := bindings } } t = rule? { config } t := by
  cases t <;> rfl

theorem visitWithin_congr {e₁ e₂ : Engine} (h : ∀ t, e₁.rule? t = e₂.rule? t) (depth : Nat) :
    e₁.visitWithin depth = e₂.visitWithin depth := by
  have steps : e₁.step = e₂.step := by
    funext visit n expected
    simp only [step, h]
  induction depth with
  | zero => rfl
  | succ depth ih => rw [visitWithin, visitWithin, ih, steps]

theorem checkUnit_prelude (config : Config) (bindings : List (String × Ty)) (tree : Node) :
    checkUnit { config := { config with prelude := bindings } } tree =
      visit { config } tree (some .void) { scope := bindings } := by
  simp only [checkUnit, visit, visitWithin_congr (rule?_prelude config bindings), Env.ofConfig]

end Engine

/-- Where every name is bound once, the order of bindings does not matter. -/
theorem lookup_eq_some_iff_mem {bindings : List (String × Ty)}
    (h : (bindings.map Prod.fst).Nodup) {s : String} {ty : Ty} :
    bindings.lookup s = some ty ↔ (s, ty) ∈ bindings := by
  induction bindings with
  | nil => simp
  | cons b bindings ih =>
    obtain ⟨name, t⟩ := b
    obtain ⟨fresh, distinct⟩ := List.nodup_cons.mp h
    by_cases hs : s = name
    · subst hs
      have absent : (s, ty) ∉ bindings := fun hm => fresh (List.mem_map.mpr ⟨_, hm, rfl⟩)
      simp [absent, eq_comm]
    · have differs : (s == name) = false := beq_eq_false_iff_ne.mpr hs
      simp [List.lookup_cons, differs, hs, ih distinct]

namespace Engine

/-- Of the prelude only the types of the names that the tree mentions matter. -/
theorem checkUnit_of_lookups (config : Config) (tree : Node)
    {prelude₁ prelude₂ : List (String × Ty)}
    (h : ∀ m ∈ tree.nodes, prelude₁.lookup m.text = prelude₂.lookup m.text) :
    (checkUnit { config := { config with prelude := prelude₁ } } tree).value =
        (checkUnit { config := { config with prelude := prelude₂ } } tree).value ∧
      (checkUnit { config := { config with prelude := prelude₁ } } tree).log =
        (checkUnit { config := { config with prelude := prelude₂ } } tree).log := by
  have agree : Env.AgreeOn tree.texts { scope := prelude₁ } { scope := prelude₂ } :=
    ⟨rfl, List.forall_mem_map.mpr h⟩
  obtain ⟨_, same⟩ := local_visit (e := { config }) rfl tree (some .void) _ _ agree
  rw [checkUnit_prelude, checkUnit_prelude]
  exact ⟨same.value, same.log⟩

/-- **Locality of names.** Only the types of names that the tree mentions influence a visit, or of
the prelude a unit. Where preludes bind names once, neither the order of bindings nor bindings of
other names matter. -/
theorem visit_local (config : Config) :
    (∀ (n : Node) (expected : Option Ty) (env₁ env₂ : Env), env₁.ledger = env₂.ledger →
      (∀ m ∈ n.nodes, env₁.lookup? m.text = env₂.lookup? m.text) →
      let out₁ := visit { config } n expected env₁
      let out₂ := visit { config } n expected env₂
      out₁.value = out₂.value ∧ out₁.log = out₂.log ∧ out₁.env.ledger = out₂.env.ledger ∧
        ∃ bindings, (∀ x, out₁.env.lookup? x = (env₁.bindAll bindings).lookup? x) ∧
          ∀ x, out₂.env.lookup? x = (env₂.bindAll bindings).lookup? x) ∧
    ∀ (tree : Node) (prelude₁ prelude₂ : List (String × Ty)),
      let out₁ := checkUnit { config := { config with prelude := prelude₁ } } tree
      let out₂ := checkUnit { config := { config with prelude := prelude₂ } } tree
      ((∀ m ∈ tree.nodes, prelude₁.lookup m.text = prelude₂.lookup m.text) →
        out₁.value = out₂.value ∧ out₁.log = out₂.log) ∧
      ((prelude₁.map Prod.fst).Nodup → (prelude₂.map Prod.fst).Nodup →
        (∀ m ∈ tree.nodes, ∀ ty, (m.text, ty) ∈ prelude₁ ↔ (m.text, ty) ∈ prelude₂) →
        out₁.value = out₂.value ∧ out₁.log = out₂.log) := by
  constructor
  · intro n expected env₁ env₂ ledger mentioned
    have agree : env₁.AgreeOn n.texts env₂ := ⟨ledger, List.forall_mem_map.mpr mentioned⟩
    obtain ⟨bindings, same⟩ := local_visit (e := { config }) rfl n expected env₁ env₂ agree
    refine ⟨same.value, same.log, same.ledger, bindings, fun x => ?_, fun x => ?_⟩
    · rw [Env.lookup?, same.left, Env.lookup?]
    · rw [Env.lookup?, same.right, Env.lookup?]
  · intro tree prelude₁ prelude₂
    constructor
    · intro lookups
      exact checkUnit_of_lookups config tree lookups
    · intro once₁ once₂ mentioned
      apply checkUnit_of_lookups config tree
      intro m hm
      apply Option.ext
      intro ty
      rw [lookup_eq_some_iff_mem once₁, lookup_eq_some_iff_mem once₂]
      exact mentioned m hm ty

/-- A bare name that is returned, and so looked up. -/
def returnFee : Node := { tag := .returnStatement, children := [.leaf .nameExpr "fee"] }

theorem visit_local_return :
    (∀ m ∈ returnFee.nodes, Env.lookup? { scope := [("fee", .int256)] } m.text =
      Env.lookup? { scope := [("tax", .bool), ("fee", .int256)] } m.text) ∧
    (visit {} returnFee none { scope := [("fee", .int256)] }).value =
      (visit {} returnFee none { scope := [("tax", .bool), ("fee", .int256)] }).value ∧
    (checkUnit { config := { prelude := [("tax", .bool), ("fee", .int256)] } } returnFee).log =
      (checkUnit { config := { prelude := [("fee", .int256), ("cap", .string)] } } returnFee).log :=
  ⟨by decide,
    ((visit_local {}).1 returnFee none { scope := [("fee", .int256)] }
      { scope := [("tax", .bool), ("fee", .int256)] } rfl (by decide)).1,
    (((visit_local {}).2 returnFee [("tax", .bool), ("fee", .int256)]
      [("fee", .int256), ("cap", .string)]).2 (by decide) (by decide)
      (by simp [returnFee, Node.nodes, Node.nodesList, Node.text, Node.leaf])).2⟩

end Engine

end ContractTyping
