import ContractTyping.Descent
import ContractTyping.Rule.Stock

/-!
Rules for open kinds are an extension. A rule is only asked for a node of its kind, built-in rules
hand on nodes of the tree and no others, and a name that was read is never taken for an open kind if
it is in the vocabulary. Main statement: `Engine.visit_conservative`, on a tree without nodes of the
registered kinds nothing changes, whatever the rules are.
-/

namespace ContractTyping

theorem Tag.ofName_ne_other {t : Tag} (h : t.isKnown = true) (s : String) :
    ofName s ≠ other t.name := by
  intro isOpen
  have same : s = t.name := by
    rw [← name_ofName s, isOpen]
    rfl
  rw [same, ofName_name h] at isOpen
  rw [isOpen] at h
  cases h

namespace Node

/-- No node of the tree is of an open kind with one of the names. -/
def Avoids (names : List String) (n : Node) : Prop :=
  n.All fun m => ∀ name ∈ names, m.tag ≠ .other name

instance (names : List String) (n : Node) : Decidable (n.Avoids names) :=
  inferInstanceAs (Decidable (n.All _))

theorem avoids_cons {name : String} {names : List String} {n : Node} :
    n.Avoids (name :: names) ↔ (n.All fun m => m.tag ≠ .other name) ∧ n.Avoids names := by
  simp only [Avoids, All, List.forall_mem_cons, forall_and]

end Node

namespace Engine

/-- The names for which rules are registered. -/
def registered (e : Engine) : List String := e.rules.map Prod.fst

theorem registered_register (e : Engine) (name : String) (rule : Rule) :
    (e.register name rule).registered = name :: e.registered := rfl

theorem rule?_of_unregistered {e : Engine} {t : Tag}
    (h : ∀ name ∈ e.registered, t ≠ .other name) :
    e.rule? t = rule? { config := e.config } t := by
  cases t with
  | other name =>
    have absent : e.rules.lookup name = none := by
      apply List.lookup_eq_none_iff.mpr
      intro entry hentry
      have differs : name ≠ entry.1 := by
        rintro rfl
        exact h _ (List.mem_map_of_mem hentry) rfl
      simpa using differs
    exact absent
  | _ => rfl

/-- To any depth: a step asks the same rule, and the nodes inside avoid the registered kinds too. -/
theorem visitWithin_of_unregistered (e : Engine) (depth : Nat) {n : Node}
    (h : n.Avoids e.registered) :
    e.visitWithin depth n = visitWithin { config := e.config } depth n := by
  induction depth generalizing n with
  | zero => rfl
  | succ depth ih =>
    have agree : AgreeBelow n (e.visitWithin depth) (visitWithin { config := e.config } depth) := by
      intro m hm
      exact ih (h.inside hm)
    funext expected
    simp only [visitWithin, step, rule?_of_unregistered h.self]
    cases hr : rule? { config := e.config } n.tag with
    | none => rfl
    | some r => simp only [descends_rule rfl hr _ _ n agree]

theorem visit_of_unregistered (e : Engine) {n : Node} (h : n.Avoids e.registered) :
    e.visit n = visit { config := e.config } n := by
  unfold visit
  rw [visitWithin_of_unregistered e _ h]

/-- **Rules for open kinds are conservative.** A tree without nodes of the registered kinds is
visited as if no rule were registered: value, environment and log are the same. In particular, to
register a rule under a name of the vocabulary changes nothing for trees whose kinds were read. -/
theorem visit_conservative (e : Engine) (n : Node) (unregistered : n.Avoids e.registered) :
    (∀ expected env, e.visit n expected env = visit { config := e.config } n expected env) ∧
      ∀ (t : Tag) (rule : Rule), t.isKnown = true → (n.All fun m => ∃ s, m.tag = Tag.ofName s) →
        ∀ expected env,
          (e.register t.name rule).visit n expected env = e.visit n expected env := by
  have bare := visit_of_unregistered e unregistered
  constructor
  · intro expected env
    rw [bare]
  · intro t rule known read expected env
    have avoids : n.Avoids (e.register t.name rule).registered := by
      rw [registered_register]
      apply Node.avoids_cons.mpr ⟨?_, unregistered⟩
      intro m hm
      obtain ⟨s, hs⟩ := read m hm
      rw [hs]
      exact Tag.ofName_ne_other known s
    rw [visit_of_unregistered _ avoids, bare]
    rfl

/-- A block with a node of an open kind that has no rule. -/
def noteUnit : Node :=
  { tag := .source
    children := [
      { tag := .block, children := [.leaf .raw "x", .leaf (.other "Note") "x"] },
      { tag := .enumType, children := [.leaf .text "On"] }] }

/-- A rule that fails its nodes. -/
def failing : Engine := { rules := [("Annotate", Rule.Stock.fail)] }

/-- Neither a rule for another open kind nor one under the name of blocks is asked. -/
theorem visit_conservative_note :
    noteUnit.Avoids failing.registered ∧ Tag.block.isKnown = true ∧
      (noteUnit.All fun m => ∃ s, m.tag = Tag.ofName s) ∧
      (∀ expected env, failing.visit noteUnit expected env = visit {} noteUnit expected env) ∧
      ∀ expected env, (failing.register "Block" Rule.Stock.reset).visit noteUnit expected env =
        failing.visit noteUnit expected env := by
  have avoids : noteUnit.Avoids failing.registered := by decide
  have read : noteUnit.All fun m => ∃ s, m.tag = Tag.ofName s := by
    have names : noteUnit.All fun m => m.tag = Tag.ofName m.tag.name := by decide
    exact fun m hm => ⟨m.tag.name, names m hm⟩
  obtain ⟨same, register⟩ := visit_conservative failing noteUnit avoids
  exact ⟨avoids, rfl, read, same, register .block Rule.Stock.reset rfl read⟩

end Engine

end ContractTyping
