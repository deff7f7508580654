import ContractTyping.Proofs.Comparison

/-!
Comparisons by simulation. Environments are alike when scopes, imports and display names are the
same and queued declarations belong together; computations simulate each other when from
environments that are alike they come to alike environments. Main statement:
`Comparison.lawfulRuns_simulation`, what remains to be said of a simulation is how it treats guards.
-/

namespace ContractTyping

structure Env.Alike (node : Node → Node → Prop) (waiting : List Node → List Node → Prop)
    (env env' : Env) : Prop where
  scope : env'.scope = env.scope
  imports : env'.ledger.imports = env.ledger.imports
  displayNames : env'.ledger.displayNames = env.ledger.displayNames
  decls : List.Forall₂ node env.ledger.decls env'.ledger.decls
  unguarded : waiting env.ledger.unguarded env'.ledger.unguarded

/-- What is asked of two logs, part by part. -/
structure LawfulLogs (log : List Event → List Event → Prop) : Prop where
  refl : ∀ events, log events events
  append : ∀ {a b c d : List Event}, log a b → log c d → log (a ++ c) (b ++ d)

namespace Pass

/-- From environments in `I`, values end in `V`, environments in `I` and logs in `L`. -/
def Simulates (I : Env → Env → Prop) (L : List Event → List Event → Prop) (V : α → β → Prop)
    (p : Pass α) (q : Pass β) : Prop :=
  ∀ env env', I env env' →
    V (p env).value (q env').value ∧ I (p env).env (q env').env ∧ L (p env).log (q env').log

namespace Simulates

variable {I : Env → Env → Prop} {L : List Event → List Event → Prop} (hL : LawfulLogs L)

include hL

theorem pure {V : α → β → Prop} {a : α} {b : β} (h : V a b) :
    Simulates I L V (Pure.pure a) (Pure.pure b) :=
  fun _ _ alike => ⟨h, alike, hL.refl []⟩

theorem bind {V : α → β → Prop} {W : α' → β' → Prop} {p : Pass α} {q : Pass β} {f : α → Pass α'}
    {g : β → Pass β'} (hp : Simulates I L V p q)
    (hf : ∀ a b, p.Returns a → V a b → Simulates I L W (f a) (g b)) :
    Simulates I L W (p >>= f) (q >>= g) := by
  intro env env' alike
  obtain ⟨value, alike, log⟩ := hp env env' alike
  obtain ⟨value', alike, log'⟩ := hf _ _ (p.returns_self env) value _ _ alike
  exact ⟨value', alike, hL.append log log'⟩

theorem emitAll (events : List Event) :
    Simulates I L (fun _ _ => True) (Pass.emitAll events) (Pass.emitAll events) :=
  fun _ _ alike => ⟨trivial, alike, hL.refl events⟩

theorem asks {f : Env → α} {g : Env → β} {V : α → β → Prop}
    (h : ∀ env env', I env env' → V (f env) (g env')) :
    Simulates I L V (Pass.asks f) (Pass.asks g) :=
  fun env env' alike => ⟨h env env' alike, alike, hL.refl []⟩

theorem modify {f g : Env → Env} (h : ∀ env env', I env env' → I (f env) (g env')) :
    Simulates I L (fun _ _ => True) (Pass.modify f) (Pass.modify g) :=
  fun env env' alike => ⟨trivial, h env env' alike, hL.refl []⟩

theorem seq {W : α' → β' → Prop} {p : Pass α} {q : Pass β} {p' : Pass α'} {q' : Pass β'}
    (hp : Simulates I L (fun _ _ => True) p q) (hq : Simulates I L W p' q') :
    Simulates I L W (do let _ ← p; p') (do let _ ← q; q') :=
  bind hL hp fun _ _ _ _ => hq

end Simulates

end Pass

/-- Kinds without rules are the same for all settings. -/
theorem Engine.rule?_eq_none {e e' : Engine} (he' : e'.rules = []) {t : Tag}
    (h : e.rule? t = none) : e'.rule? t = none := by
  cases t <;> simp_all [rule?]

namespace Comparison

open Pass

variable (ρ : Relabeling) (node body : Node → Node → Prop)
  (guards waiting : List Node → List Node → Prop) (log : List Event → List Event → Prop)

/-- The comparison of two runs from environments that are alike. -/
def simulation : Comparison where
  relabeling := ρ
  node := node
  body := body
  guards := guards
  run := Simulates (Env.Alike node waiting) log

variable {ρ node body guards waiting log} {e e' : Engine} (logs : LawfulLogs log)

include logs

theorem lawfulRuns_simulation (he : e.rules = []) (he' : e'.rules = [])
    (stem : e'.config.enumStem = e.config.enumStem)
    (h : LawfulGuards (simulation ρ node body guards waiting log) e e') :
    LawfulRuns (simulation ρ node body guards waiting log) e e' where
  toLawfulGuards := h
  pure := Simulates.pure logs
  bind := Simulates.bind logs
  emitAll events _ := Simulates.emitAll logs events
  lookup? name := Simulates.asks logs fun env env' alike => by
    rw [Env.lookup?, Env.lookup?, alike.scope]
  bindName name ty := Simulates.modify logs fun env env' alike =>
    ⟨congrArg ((name, ty) :: ·) alike.scope, alike.imports, alike.displayNames, alike.decls,
      alike.unguarded⟩
  imports := Simulates.asks logs fun _ _ alike => alike.imports.symm
  displayName? name := Simulates.asks logs fun env env' alike => by
    rw [Ledger.displayName?, Ledger.displayName?, alike.displayNames]
  enumName := Simulates.asks logs fun env env' alike => by
    rw [Rule.enumName, Rule.enumName, stem, alike.decls.length_eq]
  addDisplayName name display := Simulates.modify logs fun env env' alike =>
    ⟨alike.scope, alike.imports, congrArg ((name, display) :: ·) alike.displayNames, alike.decls,
      alike.unguarded⟩
  recordImport symbol i _ := Simulates.seq logs (Simulates.emitAll logs _) <|
    Simulates.modify logs fun env env' alike =>
      ⟨alike.scope, congrArg (· ++ [i]) alike.imports, alike.displayNames, alike.decls,
        alike.unguarded⟩
  queueDecl event d d' same _ _ := Simulates.seq logs (Simulates.emitAll logs _) <|
    Simulates.modify logs fun env env' alike =>
      ⟨alike.scope, alike.imports, alike.displayNames,
        List.rel_append alike.decls (.cons same .nil), alike.unguarded⟩
  idle {n n'} expected same tag idle := by
    have idle' : e'.rule? n'.tag = none := tag ▸ Engine.rule?_eq_none he' idle
    rw [Engine.visit_of_idle he idle, Engine.visit_of_idle he' idle', tag]
    exact Simulates.seq logs (Simulates.emitAll logs _) (Simulates.pure logs same)
  visit {n n' expected r r'} tag hr hr' below := by
    rw [Engine.visit_of_rule he hr, Engine.visit_of_rule he' (tag ▸ hr'), tag]
    exact Simulates.seq logs (Simulates.emitAll logs _) below

theorem lawfulUnits_simulation (empty : waiting [] []) :
    LawfulUnits (simulation ρ node body guards waiting log) where
  reset := Simulates.modify logs fun _ _ alike => ⟨alike.scope, rfl, rfl, .nil, empty⟩
  emit event := Simulates.emitAll logs [event]
  takeDecls := by
    refine Simulates.bind logs (Simulates.asks logs fun _ _ alike => alike.decls)
      fun ds ds' _ same => ?_
    refine Simulates.seq logs (Simulates.modify logs fun env env' alike => ?_)
      (Simulates.pure logs same)
    exact ⟨alike.scope, alike.imports, alike.displayNames, .nil, alike.unguarded⟩

end Comparison

end ContractTyping
