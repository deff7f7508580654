import ContractTyping.Proofs.Closure
import Mathlib.Data.List.OfFn
import Mathlib.Logic.Equiv.Defs

/-!
The order of siblings. A block of assumptions at the end of a unit is visited as if it stood at the
beginning. Nodes whose rules leave the environment alone may stand in any order, as each is visited
from the same environment wherever it stands. Main statements:
`Engine.visit_assumptionsFirst` and `Engine.visit_effectFree`.
-/

namespace ContractTyping

namespace Rule

/-! ## Assumptions of a unit -/

/-- The other children of a unit after a block of assumptions, each with its own result. -/
def assumptionsFirst (visit : Visitor) (a : Node) (xs : List Node) : Pass (Node × List Node) := do
  let a ← visit a (some .void)
  let xs ← visitAll visit xs (some .void)
  return (a, xs)

theorem unitChildren_trailing (visit : Visitor) {a : Node} (ha : a.tag = .assumeDecls)
    (xs : List Node) :
    unitChildren visit (xs ++ [a]) = (fun r => r.2 ++ [r.1]) <$> assumptionsFirst visit a xs := by
  unfold unitChildren assumptionsFirst
  rw [List.getLast?_concat, List.dropLast_concat]
  simp [ha]

theorem unitChildren_leading (visit : Visitor) {a : Node} (ha : a.tag = .assumeDecls)
    {xs : List Node} (hx : ∀ last ∈ xs.getLast?, last.tag ≠ .assumeDecls) :
    unitChildren visit ([a] ++ xs) = (fun r => r.1 :: r.2) <$> assumptionsFirst visit a xs := by
  cases xs with
  | nil =>
    -- Alone, the block stands first and last.
    have alone := unitChildren_trailing visit ha []
    rw [List.append_nil, ← List.nil_append [a], alone]
    simp [assumptionsFirst]
  | cons x xs =>
    have last := List.getLast?_eq_some_getLast (List.cons_ne_nil x xs)
    have other := hx _ last
    unfold unitChildren assumptionsFirst
    rw [List.getLast?_append_cons, last]
    simp [other, visitAll]

end Rule

namespace Engine

variable {e : Engine}

/-- **Assumptions at the end come first.** A unit that ends in a block of assumptions and the unit
that begins with that block lead to the same environment and the same log. The children come back
the same, each in the place that it had. -/
theorem visit_assumptionsFirst (he : e.rules = []) {n a : Node} (hn : n.tag = .source)
    (ha : a.tag = .assumeDecls) {xs : List Node}
    (hx : ∀ last ∈ xs.getLast?, last.tag ≠ .assumeDecls) (expected : Option Ty)
    (env : Env) :
    let trailing := e.visit { n with children := xs ++ [a] } expected env
    let leading := e.visit { n with children := [a] ++ xs } expected env
    leading.env = trailing.env ∧ leading.log = trailing.log ∧
    ∃ ys a' d, ys.length = xs.length ∧ d.tag = .typeDecls ∧
      trailing.value.children = ys ++ [a', d] ∧
      leading.value = { trailing.value with children := [a'] ++ ys ++ [d] } := by
  intro trailing leading
  obtain ⟨tvalue, tenv, tlog⟩ :=
    visit_unit he (n := { n with children := xs ++ [a] }) hn expected env
  obtain ⟨lvalue, lenv, llog⟩ :=
    visit_unit he (n := { n with children := [a] ++ xs }) hn expected env
  rw [Rule.unitChildren_trailing e.visit ha xs] at tvalue tenv tlog
  rw [Rule.unitChildren_leading e.visit ha hx] at lvalue lenv llog
  refine ⟨lenv.trans tenv.symm, ?_, ?_⟩
  · rw [llog, tlog]
    simp
  · let run := Rule.assumptionsFirst e.visit a xs (env.updateLedger fun _ => {})
    refine ⟨run.value.2, run.value.1, Rule.hoistedDecls run.env.ledger.decls, ?_, rfl, ?_, ?_⟩
    · exact Rule.length_visitAll e.visit xs _ _
    · rw [tvalue]
      exact List.append_assoc _ _ _
    · rw [lvalue, tvalue]
      rfl

/-- A structure, and a pair of which the name is not bound before it. -/
def lotDecls : List Node :=
  [{ tag := .structDefine, children := [.leaf .text "Lot"] },
   { tag := .pair, children := [.leaf .text "at", .leaf .text "fee"] }]

def feeAssumption : Node :=
  { tag := .assumeDecls
    children := [{ tag := .assumeDecl, children := [.leaf .text "fee", .leaf .text "12"] }] }

/-- At either end, the block binds the name of the pair before the pair is visited. -/
theorem visit_assumptionsFirst_lot :
    feeAssumption.tag = .assumeDecls ∧ (∀ last ∈ lotDecls.getLast?, last.tag ≠ .assumeDecls) ∧
    let trailing := visit {} { tag := .source, children := lotDecls ++ [feeAssumption] } none {}
    let leading := visit {} { tag := .source, children := [feeAssumption] ++ lotDecls } none {}
    trailing.value.errors = [] ∧ leading.env = trailing.env ∧ leading.log = trailing.log ∧
    ∃ ys a' d, ys.length = 2 ∧ d.tag = .typeDecls ∧ trailing.value.children = ys ++ [a', d] ∧
      leading.value = { trailing.value with children := [a'] ++ ys ++ [d] } := by
  have other : ∀ last ∈ lotDecls.getLast?, last.tag ≠ .assumeDecls := by decide
  refine ⟨rfl, other, by decide, ?_⟩
  exact visit_assumptionsFirst (e := {}) rfl (n := { tag := .source }) rfl rfl other none {}

end Engine

/-! ## Nodes without effects -/

/-- The rule for this kind of node changes the environment, if only in some cases. -/
def Tag.isEffectful : Tag → Bool
  | .source | .importDecl | .functionDecl | .functionName | .fdPair | .structDefine | .enumType
  | .assumeDecl => true
  | _ => false

/-- No node of the tree is of a kind whose rule changes the environment. -/
def Node.EffectFree (n : Node) : Prop := n.All fun m => m.tag.isEffectful = false

instance (n : Node) : Decidable n.EffectFree := inferInstanceAs (Decidable (n.All _))

namespace Pass

/-- The computation leaves the environment as it was. -/
def Still (p : Pass α) : Prop := ∀ env, (p env).env = env

theorem Still.closed (names : List String) : Closed names fun _ p => p.Still where
  pure _ _ := rfl
  bind hp hf env := (hf _ (returns_self _ env) _).trans (hp env)
  emitAll _ _ := rfl
  readLedger _ _ := rfl
  lookup? _ _ _ := rfl

theorem permits_of_not_effectful (C : (α : Type) → Pass α → Prop) {t : Tag}
    (h : t.isEffectful = false) : Permits C t := by
  unfold Permits
  split
  case h_9 => trivial
  all_goals cases h

end Pass

/-- Nodes whose visits leave the environment alone are all visited from the same environment. -/
theorem Rule.visitAll_of_still {visit : Visitor} {expected : Option Ty} {ms : List Node}
    (h : ∀ m ∈ ms, (visit m expected).Still) (env : Env) :
    (visitAll visit ms expected env).value = ms.map (fun m => (visit m expected env).value) ∧
    (visitAll visit ms expected env).env = env := by
  induction ms with
  | nil => exact ⟨rfl, rfl⟩
  | cons m ms ih =>
    have head := h m List.mem_cons_self env
    have tail := ih fun k hk => h k (List.mem_cons_of_mem _ hk)
    simp [visitAll, head, tail]

namespace Engine

variable {e : Engine}

theorem still_visit (he : e.rules = []) {n : Node} (hn : n.EffectFree) (expected : Option Ty) :
    (e.visit n expected).Still := by
  revert hn
  refine e.visit_induction he (Q := fun m _ p => m.EffectFree → p.Still) ?_ ?_ n expected
  · intro n _ _ _ env
    rfl
  · intro n t r ht h below expected hn
    have permits := Pass.permits_of_not_effectful (fun _ p => p.Still) (ht ▸ hn.self)
    have closed := Pass.Still.closed n.texts
    apply Rule.closed_emit closed
    apply closed_rule_of_inside closed h permits (List.Subset.refl _) (visit_head he)
    intro m hm ex
    exact below m hm ex (hn.inside hm)

/-- The children of a block without effects come back as each does by itself. -/
theorem visit_block (he : e.rules = []) {b : Node} (hb : b.tag = .block) {count : Nat}
    {child : Fin count → Node} (hc : ∀ i, (child i).EffectFree) (expected : Option Ty)
    (env : Env) :
    let out := e.visit { b with children := List.ofFn child } expected env
    out.value = { b with
      children := List.ofFn fun i => (e.visit (child i) expected env).value }.adopt expected ∧
    out.env = env := by
  let block := { b with children := List.ofFn child }
  have run := visit_of_rule he (n := block) (r := Rule.block) (hb ▸ rfl) expected
  have still : ∀ c ∈ List.ofFn child, (e.visit c expected).Still := by
    intro c h
    obtain ⟨i, rfl⟩ := List.mem_ofFn.mp h
    exact still_visit he (hc i) expected
  obtain ⟨value, same⟩ := Rule.visitAll_of_still still env
  rw [List.map_ofFn] at value
  rw [run]
  simp only [Rule.block, Pass.bind_value, Pass.bind_env, Pass.pure_apply, Pass.emit_apply]
  exact ⟨by rw [value]; rfl, same⟩

/-- **Nodes without effects commute.** A tree without effects leaves the environment as it was. The
children of a block that are such trees may be permuted: the block comes back the same, with what
its children became permuted in the same way. -/
theorem visit_effectFree (he : e.rules = []) :
    (∀ (n : Node) (expected : Option Ty) (env : Env), n.EffectFree →
      (e.visit n expected env).env = env) ∧
    ∀ (b : Node) (count : Nat) (child : Fin count → Node) (expected : Option Ty) (env : Env),
      b.tag = .block → (∀ i, (child i).EffectFree) →
      let ordered := e.visit { b with children := List.ofFn child } expected env
      ∃ out : Fin count → Node, ordered.value.children = List.ofFn out ∧
        ∀ σ : Equiv.Perm (Fin count),
          let permuted := e.visit { b with children := List.ofFn (child ∘ σ) } expected env
          permuted.value = { ordered.value with children := List.ofFn (out ∘ σ) } ∧
          permuted.env = ordered.env := by
  constructor
  · intro n expected env hn
    exact still_visit he hn expected env
  · intro b count child expected env hb hc ordered
    obtain ⟨value, same⟩ := visit_block he hb hc expected env
    refine ⟨fun i => (e.visit (child i) expected env).value, ?_, ?_⟩
    · rw [value]
      rfl
    · intro σ permuted
      obtain ⟨value', same'⟩ := visit_block he hb (fun i => hc (σ i)) expected env
      refine ⟨?_, same'.trans same.symm⟩
      rw [value]
      exact value'

/-- Two statements that come back typed, and between them one that fails. -/
def tradeStatements : Fin 3 → Node
  | 0 => { tag := .assign, children := [.leaf .raw "price", .leaf .intExpr "7"] }
  | 1 => { tag := .map1, children := [.leaf .raw "price", .leaf .raw "price"] }
  | 2 => { tag := .returnStatement, children := [.leaf .raw "price"] }

theorem visit_effectFree_trade :
    (∀ i, (tradeStatements i).EffectFree) ∧
    let env : Env := { scope := [("price", .int256)] }
    let ordered := visit {} { tag := .block, children := List.ofFn tradeStatements } none env
    (visit {} (tradeStatements 1) none env).env = env ∧
    ordered.value.errors.length = 1 ∧
    ∃ out : Fin 3 → Node, ordered.value.children = List.ofFn out ∧
      ∀ σ : Equiv.Perm (Fin 3),
        let permuted :=
          visit {} { tag := .block, children := List.ofFn (tradeStatements ∘ σ) } none env
        permuted.value = { ordered.value with children := List.ofFn (out ∘ σ) } ∧
        permuted.env = ordered.env := by
  have free : ∀ i, (tradeStatements i).EffectFree := by decide
  obtain ⟨still, commute⟩ := visit_effectFree (e := {}) rfl
  refine ⟨free, still _ none _ (free 1), by decide, ?_⟩
  exact commute { tag := .block } 3 tradeStatements none _ rfl free

end Engine

end ContractTyping
