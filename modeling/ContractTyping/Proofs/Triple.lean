import ContractTyping.Rule.Basic
import Mathlib.Data.List.Forall2

/-!
Assertions about computations of the pass. `p.Returns a` says that `p` may return `a`, and
`p.Triple P Q` that from an environment with `P` the computation ends in a value and an environment
with `Q`. Both follow the structure of a computation; `p.Keeps I G` is the case of an invariant.
Main statements: the loop rules for visiting a list.
-/

namespace ContractTyping

namespace Pass

/-- The computation returns the value from some environment. -/
def Returns (p : Pass α) (a : α) : Prop := ∃ env, (p env).value = a

/-- From an environment with `P`, the computation ends with `Q`. -/
def Triple (P : Env → Prop) (p : Pass α) (Q : α → Env → Prop) : Prop :=
  ∀ env, P env → Q (p env).value (p env).env

theorem returns_self (p : Pass α) (env : Env) : p.Returns (p env).value := ⟨env, rfl⟩

theorem returns_pure_iff {a b : α} : (pure a : Pass α).Returns b ↔ a = b :=
  ⟨fun ⟨_, h⟩ => h, fun h => ⟨{}, h⟩⟩

theorem Returns.of_bind {p : Pass α} {f : α → Pass β} {b : β} (h : (p >>= f).Returns b) :
    ∃ a, p.Returns a ∧ (f a).Returns b := by
  obtain ⟨env, rfl⟩ := h
  exact ⟨(p env).value, p.returns_self env, (f (p env).value).returns_self (p env).env⟩

/-- Every value that the computation returns has a property. -/
def Yields (p : Pass α) (G : α → Prop) : Prop := ∀ a, p.Returns a → G a

theorem Yields.pure {G : α → Prop} {a : α} (h : G a) : Yields (Pure.pure a) G := by
  intro b hb
  cases returns_pure_iff.mp hb
  exact h

theorem Yields.bind {G : β → Prop} {p : Pass α} {f : α → Pass β}
    (h : ∀ a, p.Returns a → (f a).Yields G) : (p >>= f).Yields G := by
  intro b hb
  obtain ⟨a, ha, hb⟩ := hb.of_bind
  exact h a ha b hb

namespace Triple

variable {P : Env → Prop} {p : Pass α}

theorem pure {Q : α → Env → Prop} {a : α} (h : ∀ env, P env → Q a env) :
    Triple P (pure a : Pass α) Q :=
  h

/-- The second computation starts where the first ends, with a value that the first returns. -/
theorem bind {f : α → Pass β} {Q : α → Env → Prop} {R : β → Env → Prop} (hp : Triple P p Q)
    (hf : ∀ a, p.Returns a → Triple (Q a) (f a) R) : Triple P (p >>= f) R :=
  fun env h => hf _ (p.returns_self env) _ (hp env h)

theorem conseq {P' : Env → Prop} {Q Q' : α → Env → Prop} (h : Triple P p Q)
    (hP : ∀ env, P' env → P env) (hQ : ∀ a env, Q a env → Q' a env) : Triple P' p Q' :=
  fun env h' => hQ _ _ (h env (hP env h'))

/-- A fact that does not speak of the environment. -/
theorem of_fact {R : Prop} {Q : α → Env → Prop} (h : R → Triple P p Q) :
    Triple (fun env => R ∧ P env) p Q :=
  fun env hr => h hr.1 env hr.2

theorem emit (e : Event) : Triple P (emit e) fun _ => P := fun _ h => h

theorem emitAll (es : List Event) : Triple P (emitAll es) fun _ => P := fun _ h => h

theorem asks (f : Env → α) : Triple P (asks f) fun a env => a = f env ∧ P env :=
  fun _ h => ⟨rfl, h⟩

theorem bindName {Q : Env → Prop} {name : String} {ty : Ty}
    (h : ∀ env, P env → Q (env.bind name ty)) : Triple P (bindName name ty) fun _ => Q :=
  h

theorem updateLedger {Q : Env → Prop} {f : Ledger → Ledger}
    (h : ∀ env, P env → Q (env.updateLedger f)) : Triple P (updateLedger f) fun _ => Q :=
  h

/-- **Loop rule.** The assertion speaks of the nodes that have come back so far. -/
theorem visitAll {visit : Visitor} {expected : Option Ty} {I : List Node → Env → Prop}
    {ms : List Node}
    (h : ∀ m ∈ ms, ∀ done, Triple (I done) (visit m expected) fun n => I (done ++ [n]))
    (done : List Node) :
    Triple (I done) (Rule.visitAll visit ms expected) fun ns => I (done ++ ns) := by
  induction ms generalizing done with
  | nil =>
    intro env hi
    simpa using hi
  | cons m ms ih =>
    intro env hi
    have head := h m List.mem_cons_self done env hi
    have tail := ih (fun k hk => h k (List.mem_cons_of_mem _ hk)) _ _ head
    simpa [Rule.visitAll] using tail

end Triple

/-- The computation keeps an invariant and returns a value with `G`. -/
def Keeps (I : Env → Prop) (G : α → Prop) (p : Pass α) : Prop :=
  p.Triple I fun a env => G a ∧ I env

namespace Keeps

variable {I : Env → Prop} {G : α → Prop} {p : Pass α}

theorem pure {a : α} (h : G a) : Keeps I G (pure a : Pass α) := fun _ hi => ⟨h, hi⟩

theorem bind {H : β → Prop} {f : α → Pass β} (hp : Keeps I G p)
    (hf : ∀ a, p.Returns a → G a → Keeps I H (f a)) : Keeps I H (p >>= f) :=
  fun env hi => hf _ (p.returns_self env) (hp env hi).1 _ (hp env hi).2

/-- A computation whose value is not looked at, and another after it. -/
theorem seq {H : β → Prop} {q : Pass β} (hp : Keeps I (fun _ => True) p) (hq : Keeps I H q) :
    Keeps I H (do let _ ← p; q) :=
  hp.bind fun _ _ _ => hq

theorem emit (e : Event) : Keeps I (fun _ => True) (Pass.emit e) := fun _ hi => ⟨trivial, hi⟩

theorem emitAll (es : List Event) : Keeps I (fun _ => True) (Pass.emitAll es) :=
  fun _ hi => ⟨trivial, hi⟩

/-- Reading a part of the environment of which nothing need be known. -/
theorem reads (f : Env → α) : Keeps I (fun _ => True) (Pass.asks f) := fun _ hi => ⟨trivial, hi⟩

theorem lookup? (name : String) : Keeps I (fun _ => True) (Pass.lookup? name) :=
  fun _ hi => ⟨trivial, hi⟩

theorem bindName {name : String} {ty : Ty} (h : ∀ env, I env → I (env.bind name ty)) :
    Keeps I (fun _ => True) (Pass.bindName name ty) :=
  fun env hi => ⟨trivial, h env hi⟩

theorem updateLedger {f : Ledger → Ledger} (h : ∀ env, I env → I (env.updateLedger f)) :
    Keeps I (fun _ => True) (Pass.updateLedger f) :=
  fun env hi => ⟨trivial, h env hi⟩

theorem visitAll {visit : Visitor} {expected : Option Ty} {G : Node → Prop} {ms : List Node}
    (h : ∀ m ∈ ms, (visit m expected).Keeps I G) :
    (Rule.visitAll visit ms expected).Keeps I fun ns => ∀ n ∈ ns, G n := by
  induction ms with
  | nil => exact pure (by simp)
  | cons m ms ih =>
    refine (h m List.mem_cons_self).bind fun n _ hn => ?_
    refine (ih fun k hk => h k (List.mem_cons_of_mem _ hk)).bind fun ns _ hns => ?_
    exact pure (List.forall_mem_cons.mpr ⟨hn, hns⟩)

end Keeps

end Pass

/-- Visiting a list returns one node for each node, in order. -/
theorem Rule.visitAll_returns {visit : Visitor} {ms : List Node} {expected : Option Ty}
    {ns : List Node} (h : (Rule.visitAll visit ms expected).Returns ns) :
    List.Forall₂ (fun m n => (visit m expected).Returns n) ms ns := by
  induction ms generalizing ns with
  | nil =>
    cases Pass.returns_pure_iff.mp h
    exact .nil
  | cons m ms ih =>
    obtain ⟨n, hn, rest⟩ := h.of_bind
    obtain ⟨ns', hns, last⟩ := rest.of_bind
    cases Pass.returns_pure_iff.mp last
    exact .cons hn (ih hns)

theorem exists_mem_of_forall₂ {R : α → β → Prop} {as : List α} {bs : List β}
    (h : List.Forall₂ R as bs) {b : β} (hb : b ∈ bs) : ∃ a ∈ as, R a b := by
  induction h with
  | nil => simp at hb
  | cons hab _ ih =>
    rcases List.mem_cons.mp hb with rfl | hb
    · exact ⟨_, List.mem_cons_self, hab⟩
    · obtain ⟨a, ha, hr⟩ := ih hb
      exact ⟨a, List.mem_cons_of_mem _ ha, hr⟩

theorem getLast?_of_forall₂ {R : α → β → Prop} {as : List α} {bs : List β}
    (h : List.Forall₂ R as bs) {b : β} (hb : bs.getLast? = some b) :
    ∃ a, as.getLast? = some a ∧ R a b := by
  induction h with
  | nil => simp at hb
  | cons hab rest ih =>
    cases rest with
    | nil =>
      obtain rfl := Option.some.inj hb
      exact ⟨_, rfl, hab⟩
    | cons _ _ =>
      rw [List.getLast?_cons_cons] at hb ⊢
      exact ih hb

end ContractTyping
