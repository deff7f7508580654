import ContractTyping.Proofs.Visit

/-!
Failed visits. A rule that reports a fault has changed nothing before: its checks come first, and
what it binds, records or queues comes last. Only the rules for returns and for accesses look at a
node below before they can fail. Main statements: `Engine.atomic_rule`, any other rule with a
result of its own types its node or hands it back as it was, apart from the diagnostic; and
`Engine.visit_fails`, what every failed visit leaves behind.
-/

namespace ContractTyping

/-- How many indices an access of this kind has. -/
def Tag.arity? : Tag → Option Nat
  | map1 => some 1
  | map2 => some 2
  | _ => none

namespace Node

/-- The node whose children a report of a missing child is about: an import that is laid out as one
reports on its first child, any other node on itself. -/
def blamed (m : Node) : Node :=
  if m.tag = .importDecl ∧ 3 ≤ m.children.length then m.children.headD m else m

/-- An import with a short name and without a symbol. -/
def LacksSymbol (m : Node) : Prop :=
  m.tag = .importDecl ∧ 3 ≤ m.children.length ∧ m.descendant? [0, 1] ≠ none ∧
    m.descendant? [0, 0, 0] = none

instance (m : Node) : Decidable m.LacksSymbol := inferInstanceAs (Decidable (_ ∧ _ ∧ _ ∧ _))

/-- A report of a missing child on the node names the node that it blames. The count it gives is
right except for an import that lacks its symbol only. -/
def Truthful (m : Node) : Prop :=
  ∀ tag index span, m.error = some (.missingChild tag index span) →
    m.blamed.tag.name = tag ∧ m.blamed.span = span ∧
      (m.blamed.children.length < index.toNat ↔ ¬ m.LacksSymbol)

/-- The node comes back typed, and no diagnostic is new. -/
def ResolvesTo (n out : Node) : Prop :=
  out.ty.isSome = true ∧ (n.error = none → out.error = none)

/-- Neither typed nor failed, and without children. -/
structure Bare (n : Node) : Prop where
  ty : n.ty = none
  error : n.error = none
  children : n.children = []

theorem blamed_of_few {m : Node} (few : m.children.length < 3) : m.blamed = m := by
  unfold blamed
  rw [if_neg]
  rintro ⟨-, many⟩
  omega

theorem blamed_of_names {m names path address : Node} {rest : List Node}
    (ht : m.tag = .importDecl) (hc : m.children = names :: path :: address :: rest) :
    m.blamed = names := by
  unfold blamed
  rw [if_pos ⟨ht, by simp [hc]⟩, hc]
  rfl

theorem truthful_of_no_error {m : Node} (h : m.error = none) : m.Truthful := by
  intro tag index span reported
  simp [h] at reported

/-- No rule asks for more than three children, so a node that lacks some is blamed itself. -/
theorem truthful_lacking {n : Node} {count : UInt64} (few : n.children.length < count.toNat)
    (small : count.toNat ≤ 3) : (n.lacking count).Truthful := by
  intro tag index span reported
  cases reported
  have short : (n.lacking count).children.length < 3 := Nat.lt_of_lt_of_le few small
  rw [blamed_of_few short]
  refine ⟨rfl, rfl, fun _ lacks => ?_, fun _ => few⟩
  have many := lacks.2.1
  omega

theorem lacksSymbol_iff {m names path address : Node} {rest : List Node}
    (ht : m.tag = .importDecl) (hc : m.children = names :: path :: address :: rest) :
    m.LacksSymbol ↔ names.descendant? [1] ≠ none ∧ names.descendant? [0, 0] = none := by
  simp [LacksSymbol, descendant?, child?, ht, hc]

/-- The report on an incomplete import counts the parts of its first child. A symbol that is missing
from the first of two parts is reported as if the second were missing. -/
theorem truthful_names {m names path address : Node} {rest : List Node}
    (ht : m.tag = .importDecl) (hc : m.children = names :: path :: address :: rest)
    (incomplete : names.descendant? [0, 0] = none ∨ names.descendant? [1] = none)
    (he : m.error = some (.missingChild names.tag.name 2 names.span)) : m.Truthful := by
  intro tag index span reported
  rw [he] at reported
  cases reported
  rw [blamed_of_names ht hc, lacksSymbol_iff ht hc]
  have short : names.descendant? [1] = none ↔ names.children.length < 2 := by
    show names.children[1]?.bind some = none ↔ _
    rw [Option.bind_fun_some, List.getElem?_eq_none_iff]
    omega
  refine ⟨rfl, rfl, fun few lacks => ?_, fun complete => ?_⟩
  · exact lacks.1 (short.mpr few)
  · by_contra many
    have named := mt short.mp many
    exact complete ⟨named, incomplete.resolve_right named⟩

end Node

/-! ## All or nothing -/

/-- The visit failed: the diagnostic is all that the node has in addition. -/
structure Outcome.Fails (out : Outcome Node) (n : Node) (env : Env) (fault : Diagnostic) :
    Prop where
  value : out.value = n.fail fault
  env : out.env = env

/-- No diagnostic is new, and without children to visit the environment stays as it was. -/
structure Outcome.Passes (out : Outcome Node) (n : Node) (env : Env) : Prop where
  error : out.value.error = n.error
  env : out.value.children = [] → out.env = env

/-- The node comes back resolved, or it comes back with a true report in the given environment. -/
def Outcome.AllOrNothing (out : Outcome Node) (n : Node) (env : Env) : Prop :=
  n.ResolvesTo out.value ∨ ∃ fault, out.Fails n env fault ∧ (n.fail fault).Truthful

namespace Outcome.AllOrNothing

variable {out : Outcome Node} {n : Node} {env : Env}

/-- The log has no part in it. -/
theorem of_eq {out' : Outcome Node} (h : out.AllOrNothing n env)
    (value : out'.value = out.value) (same : out'.env = out.env) : out'.AllOrNothing n env := by
  rcases h with resolves | ⟨fault, fails, truthful⟩
  · left
    rwa [value]
  · right
    exact ⟨fault, ⟨value.trans fails.value, same.trans fails.env⟩, truthful⟩

theorem fails (h : out.AllOrNothing n env) (hn : n.error = none) {fault : Diagnostic}
    (failed : out.value.error = some fault) : out.Fails n env fault := by
  rcases h with ⟨-, clean⟩ | ⟨reported, fails, -⟩
  · rw [clean hn] at failed
    cases failed
  · rw [fails.value] at failed
    cases failed
    exact fails

theorem not_bare (h : out.AllOrNothing n env) : ¬ out.value.Bare := by
  rintro ⟨untyped, clean, -⟩
  rcases h with ⟨typed, -⟩ | ⟨fault, fails, -⟩
  · rw [untyped] at typed
    cases typed
  · rw [fails.value] at clean
    cases clean

theorem truthful (h : out.AllOrNothing n env) (hn : n.error = none) : out.value.Truthful := by
  rcases h with ⟨-, clean⟩ | ⟨fault, fails, truthful⟩
  · exact Node.truthful_of_no_error (clean hn)
  · rw [fails.value]
    exact truthful

end Outcome.AllOrNothing

namespace Pass

/-- The computation resolves the node, or fails and leaves the environment as it was. -/
def Atomic (n : Node) (p : Pass Node) : Prop := ∀ env, (p env).AllOrNothing n env

namespace Atomic

variable {n : Node}

theorem of_yields {p : Pass Node} (h : p.Yields n.ResolvesTo) : p.Atomic n :=
  fun env => .inl (h _ (p.returns_self env))

theorem fail {fault : Diagnostic} (h : (n.fail fault).Truthful) :
    Atomic n (pure (n.fail fault)) :=
  fun _ => .inr ⟨fault, ⟨rfl, rfl⟩, h⟩

theorem lacking {count : UInt64} (few : n.children.length < count.toNat)
    (small : count.toNat ≤ 3) : Atomic n (pure (n.lacking count)) :=
  fail (Node.truthful_lacking few small)

/-- What runs first is accounted for by the environment in which the rest may fail. -/
theorem after {p : Pass α} {f : α → Pass Node} {start env : Env}
    (h : (f (p start).value).Yields n.ResolvesTo ∨
      (f (p start).value).Atomic n ∧ (p start).env = env) :
    ((p >>= f) start).AllOrNothing n env := by
  rcases h with resolves | ⟨atomic, rfl⟩
  · exact .inl (resolves _ ((f (p start).value).returns_self (p start).env))
  · exact (atomic _).of_eq rfl rfl

/-- Names are looked up before anything else happens. -/
theorem resolving {name : String} {found : Ty → Pass Node}
    (h : ∀ ty, (found ty).Yields n.ResolvesTo) : (Rule.resolving n name found).Atomic n := by
  intro env
  apply after
  split
  · exact .inl (h _)
  · refine .inr ⟨fun _ => after (.inr ⟨fail ?_, rfl⟩), rfl⟩
    rintro _ _ _ ⟨⟩

end Atomic

end Pass

namespace Rule

open Pass

variable {visit : Visitor} {n : Node} {expected : Option Ty}

theorem atomic_importDecl (ht : n.tag = .importDecl) :
    (importDecl visit n expected).Atomic n := by
  unfold importDecl
  split
  · rename_i names path address rest hc
    split
    · exact .of_yields (.bind fun _ _ => .bind fun _ _ => .pure ⟨rfl, id⟩)
    · rename_i incomplete
      apply Atomic.fail
      refine Node.truthful_names ht hc ?_ rfl
      by_contra complete
      rw [not_or] at complete
      obtain ⟨symbol, hs⟩ := Option.ne_none_iff_exists'.mp complete.1
      obtain ⟨short, hn⟩ := Option.ne_none_iff_exists'.mp complete.2
      exact incomplete symbol short hs hn
  · rename_i layout
    have few : n.children.length < 3 := by
      rcases hc : n.children with _ | ⟨_, _ | ⟨_, _ | ⟨_, _⟩⟩⟩
      · simp
      · simp
      · simp
      · exact absurd hc (layout _ _ _ _)
    exact .lacking few (by decide)

theorem atomic_pair : (pair visit n expected).Atomic n := by
  unfold pair
  split
  · exact .resolving fun ty => .pure ⟨rfl, id⟩
  · rename_i layout
    exact .lacking (length_lt_two layout) (by decide)

theorem atomic_fdPair (config : Config) : (fdPair config visit n expected).Atomic n := by
  unfold fdPair
  split
  · rename_i empty
    apply Atomic.lacking _ (by decide)
    rw [List.getLast?_eq_none_iff.mp empty]
    decide
  · exact .resolving fun ty => .bind fun _ _ => .pure ⟨rfl, id⟩

theorem atomic_importList : (importList visit n expected).Atomic n := by
  unfold importList
  split
  · exact .of_yields (.pure ⟨rfl, id⟩)
  · exact .of_yields (.bind fun _ _ => .pure ⟨rfl, id⟩)

theorem atomic_functionName : (functionName visit n expected).Atomic n := by
  unfold functionName
  split
  · exact .of_yields (.bind fun _ _ => .pure ⟨rfl, id⟩)
  · exact .of_yields (.pure ⟨rfl, id⟩)

theorem atomic_assign : (assign visit n expected).Atomic n := by
  unfold assign
  split
  · exact .of_yields (.bind fun _ _ => .bind fun _ _ => .pure ⟨rfl, id⟩)
  · rename_i layout
    exact .lacking (length_lt_two layout) (by decide)

theorem atomic_recordStatement : (recordStatement visit n expected).Atomic n := by
  unfold recordStatement
  split
  · exact .of_yields (.bind fun _ _ => .bind fun _ _ => .pure ⟨rfl, id⟩)
  · rename_i layout
    exact .lacking (length_lt_two layout) (by decide)

theorem atomic_structDefine : (structDefine visit n expected).Atomic n := by
  unfold structDefine
  split
  · apply Atomic.of_yields
    exact .bind fun _ _ => .bind fun _ _ => .bind fun _ _ => .bind fun _ _ => .pure ⟨rfl, id⟩
  · rename_i empty
    exact .lacking (by rw [empty]; decide) (by decide)

theorem atomic_assumeDecl : (assumeDecl visit n expected).Atomic n := by
  unfold assumeDecl
  split
  · apply Atomic.of_yields
    refine .bind fun _ _ => .bind fun _ _ => .bind fun _ _ => .bind fun _ _ => .bind fun _ _ => ?_
    exact .pure ⟨rfl, id⟩
  · rename_i layout
    exact .lacking (length_lt_two layout) (by decide)

/-- A function that becomes an event is a new node, which has no diagnostic. -/
theorem atomic_functionDecl (config : Config) :
    (functionDecl config visit n expected).Atomic n := by
  unfold functionDecl
  split
  · apply Atomic.of_yields
    refine .bind fun name _ => .bind fun param _ => .bind fun _ _ => .bind fun _ _ => ?_
    refine .bind fun body _ => ?_
    intro out returned
    rcases concludeFunction_returns _ _ _ _ _ _ _ returned with ⟨-, rfl⟩ | ⟨-, rfl⟩
    · exact ⟨rfl, fun _ => rfl⟩
    · exact ⟨rfl, id⟩
  · rename_i layout
    exact .lacking (length_lt_two layout) (by decide)

/-! ## Rules that look below before they can fail -/

theorem atomic_returnStatement_of_nil (hc : n.children = []) :
    (returnStatement visit n expected).Atomic n := by
  unfold returnStatement
  rw [hc]
  exact .lacking (by rw [hc]; decide) (by decide)

/-- A return fails only for a bare operand, whose visit is supposed to lead to `after`. -/
theorem allOrNothing_returnStatement {operand : Node} {rest : List Node} {env after : Env}
    (hc : n.children = operand :: rest)
    (still : (visit operand expected env).value.Bare → (visit operand expected env).env = after) :
    (returnStatement visit n expected env).AllOrNothing
      { n with children := (visit operand expected env).value :: rest } after := by
  unfold returnStatement
  rw [hc]
  apply Atomic.after
  dsimp only
  split
  · exact .inl (.pure ⟨rfl, id⟩)
  · rename_i hty herror hchildren hpayload
    exact .inr ⟨.resolving fun ty => .pure ⟨rfl, id⟩, still ⟨hty, herror, hchildren⟩⟩
  · exact .inl (.pure ⟨rfl, id⟩)

theorem atomic_mapping_of_short {arity : Nat} (small : arity = 1 ∨ arity = 2)
    (short : n.children.length ≤ arity) : (mapping arity visit n expected).Atomic n := by
  unfold mapping
  rw [List.drop_eq_nil_of_le short]
  apply Atomic.lacking
  · rcases small with rfl | rfl <;> exact Nat.lt_succ_of_le short
  · rcases small with rfl | rfl <;> decide

/-- An access visits its operand and fails when that is no mapping, with the indices untouched. -/
theorem allOrNothing_mapping {arity : Nat} {operand : Node} {env : Env}
    (hc : n.children[arity]? = some operand) :
    (mapping arity visit n expected env).AllOrNothing
      { n with children := n.children.set arity (visit operand none env).value }
      (visit operand none env).env := by
  obtain ⟨inside, ho⟩ := List.getElem?_eq_some_iff.mp hc
  have parts : n.children.drop arity = operand :: n.children.drop (arity + 1) := by
    rw [List.drop_eq_getElem_cons inside, ho]
  unfold mapping
  rw [parts, List.set_eq_take_append_cons_drop, if_pos inside]
  apply Atomic.after
  dsimp only
  split
  · exact .inl (.bind fun _ _ => .pure ⟨rfl, id⟩)
  · refine .inr ⟨.fail ?_, rfl⟩
    rintro _ _ _ ⟨⟩

/-! ## Rules that never fail and may leave their node untyped -/

theorem passes_raw (visit : Visitor) (n : Node) (expected : Option Ty) (env : Env) :
    (raw visit n expected env).Passes n env := by
  have kept : (raw visit n expected).Keeps (· = env) fun out => out.error = n.error := by
    refine (Keeps.lookup? n.text).bind fun ty _ _ => ?_
    cases ty with
    | some ty => exact Keeps.pure rfl
    | none => exact (Keeps.emit _).seq (Keeps.pure rfl)
  obtain ⟨error, same⟩ := kept env rfl
  exact ⟨error, fun _ => same⟩

theorem passes_finishing (visit : Visitor) (n : Node) (expected : Option Ty) (env : Env) :
    (finishing visit n expected env).Passes n env := by
  refine ⟨rfl, fun empty => ?_⟩
  have visited : (visitAll visit n.children expected env).value = [] := empty
  have none : n.children = [] := by
    rw [← List.length_eq_zero_iff, ← length_visitAll visit n.children expected env, visited]
    rfl
  show (visitAll visit n.children expected env).env = env
  rw [none]
  rfl

end Rule

namespace Engine

open Pass

variable {e : Engine}

/-- **Rules are atomic.** Returns and accesses look below first; raw names and blocks of words and
assumptions never fail. -/
theorem atomic_rule {config : Config} {t : Tag} {r : Rule} (h : BuiltIn config t r)
    (below : t ≠ .returnStatement ∧ t.arity? = none)
    (failing : t ≠ .raw ∧ t ≠ .wordDefine ∧ t ≠ .assumeDecls) {visit : Visitor} {n : Node}
    (ht : n.tag = t) (expected : Option Ty) : (r visit n expected).Atomic n := by
  cases h with
  | source =>
    apply Atomic.of_yields
    refine .bind fun _ _ => .bind fun _ _ => .bind fun _ _ => .bind fun _ _ => .bind fun _ _ => ?_
    exact .pure ⟨rfl, id⟩
  | block | fdParam | fdBody => exact .of_yields (.bind fun _ _ => .pure ⟨rfl, id⟩)
  | title | eventDecl | completeStatement | intExpr => exact .of_yields (.pure ⟨rfl, id⟩)
  | importList => exact Rule.atomic_importList
  | importDecl => exact Rule.atomic_importDecl ht
  | variableDecl => exact .of_yields (.bind fun _ _ => .bind fun _ _ => .pure ⟨rfl, id⟩)
  | vPair | pair => exact Rule.atomic_pair
  | functionDecl => exact Rule.atomic_functionDecl config
  | functionName => exact Rule.atomic_functionName
  | fdPair => exact Rule.atomic_fdPair config
  | assign => exact Rule.atomic_assign
  | returnStatement => exact absurd rfl below.1
  | recordStatement => exact Rule.atomic_recordStatement
  | map1 | map2 => exact absurd below.2 nofun
  | raw => exact absurd rfl failing.1
  | structDefine => exact Rule.atomic_structDefine
  | enumType =>
    apply Atomic.of_yields
    exact .bind fun _ _ => .bind fun _ _ => .bind fun _ _ => .bind fun _ _ => .pure ⟨rfl, id⟩
  | wordDefine => exact absurd rfl failing.2.1
  | assumeDecls => exact absurd rfl failing.2.2
  | assumeDecl => exact Rule.atomic_assumeDecl

theorem rule?_of_arity {t : Tag} {arity : Nat} (h : t.arity? = some arity) :
    (arity = 1 ∨ arity = 2) ∧ e.rule? t = some (Rule.mapping arity) := by
  cases t <;> cases h
  · exact ⟨.inl rfl, rfl⟩
  · exact ⟨.inr rfl, rfl⟩

section Visits

variable (he : e.rules = []) {n : Node} {expected : Option Ty} {env : Env}

include he

/-- The event of the visit shows in the log only. -/
theorem allOrNothing_of_atomic {r : Rule} (hr : e.rule? n.tag = some r)
    (h : (r e.visit n expected).Atomic n) : (e.visit n expected env).AllOrNothing n env := by
  rw [visit_of_rule he hr]
  exact (h env).of_eq rfl rfl

theorem passes_or_allOrNothing (below : n.tag ≠ .returnStatement ∧ n.tag.arity? = none) :
    (e.visit n expected env).Passes n env ∨ (e.visit n expected env).AllOrNothing n env := by
  cases hr : e.rule? n.tag with
  | none =>
    left
    rw [visit_of_idle he hr]
    exact ⟨rfl, fun _ => rfl⟩
  | some r =>
    have h := builtIn_of_rule he hr
    by_cases unfailing : n.tag = .raw ∨ n.tag = .wordDefine ∨ n.tag = .assumeDecls
    · left
      have passes : (r e.visit n expected env).Passes n env := by
        rcases unfailing with ht | ht | ht <;> rw [ht] at h <;> cases h
        · exact Rule.passes_raw e.visit n expected env
        · exact Rule.passes_finishing e.visit n expected env
        · exact Rule.passes_finishing e.visit n expected env
      rw [visit_of_rule he hr]
      exact ⟨passes.error, passes.env⟩
    · right
      simp only [not_or] at unfailing
      exact allOrNothing_of_atomic he hr (atomic_rule h below unfailing rfl expected)

theorem allOrNothing_short_access {arity : Nat} (ht : n.tag.arity? = some arity)
    (short : n.children.length ≤ arity) : (e.visit n expected env).AllOrNothing n env := by
  obtain ⟨small, hr⟩ := rule?_of_arity ht
  exact allOrNothing_of_atomic he hr (Rule.atomic_mapping_of_short small short)

theorem allOrNothing_access {operand : Node} {arity : Nat} (ht : n.tag.arity? = some arity)
    (hc : n.children[arity]? = some operand) :
    (e.visit n expected env).AllOrNothing
      { n with children := n.children.set arity (e.visit operand none env).value }
      (e.visit operand none env).env := by
  rw [visit_of_rule he (rule?_of_arity ht).2]
  exact (Rule.allOrNothing_mapping hc).of_eq rfl rfl

theorem allOrNothing_empty_return (ht : n.tag = .returnStatement) (hc : n.children = []) :
    (e.visit n expected env).AllOrNothing n env :=
  allOrNothing_of_atomic he (ht ▸ rfl) (Rule.atomic_returnStatement_of_nil hc)

theorem allOrNothing_return {operand : Node} {rest : List Node} {after : Env}
    (ht : n.tag = .returnStatement) (hc : n.children = operand :: rest)
    (still : (e.visit operand expected env).value.Bare →
      (e.visit operand expected env).env = after) :
    (e.visit n expected env).AllOrNothing
      { n with children := (e.visit operand expected env).value :: rest } after := by
  have hr : e.rule? n.tag = some Rule.returnStatement := ht ▸ rfl
  rw [visit_of_rule he hr]
  exact (Rule.allOrNothing_returnStatement hc still).of_eq rfl rfl

/-- Whatever the kind of node: no diagnostic is new, or the visit resolves the node or fails as a
whole, where only its children may be others by then. -/
theorem visit_outcome :
    (e.visit n expected env).Passes n env ∨
      ∃ shown after, (e.visit n expected env).AllOrNothing shown after ∧
        shown.error = n.error := by
  by_cases hreturn : n.tag = .returnStatement
  · right
    cases hc : n.children with
    | nil => exact ⟨n, env, allOrNothing_empty_return he hreturn hc, rfl⟩
    | cons operand rest => exact ⟨_, _, allOrNothing_return he hreturn hc fun _ => rfl, rfl⟩
  · cases ht : n.tag.arity? with
    | some arity =>
      right
      cases hc : n.children[arity]? with
      | none =>
        have short := List.getElem?_eq_none_iff.mp hc
        exact ⟨n, env, allOrNothing_short_access he ht short, rfl⟩
      | some operand => exact ⟨_, _, allOrNothing_access he ht hc, rfl⟩
    | none =>
      rcases passes_or_allOrNothing he ⟨hreturn, ht⟩ with passes | atomic
      · exact .inl passes
      · exact .inr ⟨n, env, atomic, rfl⟩

/-- A node that comes back bare had no children to visit, and its rule at most looked a name up. -/
theorem visit_of_bare (bare : (e.visit n expected env).value.Bare) :
    (e.visit n expected env).env = env := by
  rcases visit_outcome he with passes | ⟨shown, after, atomic, -⟩
  · exact passes.env bare.children
  · exact absurd bare atomic.not_bare

theorem truthful_visit (hn : n.error = none) : (e.visit n expected env).value.Truthful := by
  rcases visit_outcome he with passes | ⟨shown, after, atomic, error⟩
  · exact Node.truthful_of_no_error (passes.error.trans hn)
  · exact atomic.truthful (error.trans hn)

end Visits

/-- **Failures are atomic.** A failed visit leaves the environment as it was and hands the node back
with a diagnostic as the only change, where a return shows its operand as it came back. An access
that has an operand has visited it, and nothing else: the environment is the one after that visit,
the operand is as it came back, and the indices are as they were. -/
theorem visit_fails (he : e.rules = []) {n : Node} (hn : n.error = none) {expected : Option Ty}
    {env : Env} {fault : Diagnostic}
    (failed : (e.visit n expected env).value.error = some fault) :
    (n.tag ≠ .returnStatement → n.tag.arity? = none →
      (e.visit n expected env).Fails n env fault) ∧
    (n.tag = .returnStatement →
      (e.visit n expected env).Fails
        { n with
          children := n.children.modify 0 fun operand => (e.visit operand expected env).value }
        env fault) ∧
    ∀ arity, n.tag.arity? = some arity →
      (n.children.length ≤ arity → (e.visit n expected env).Fails n env fault) ∧
      ∀ operand, n.children[arity]? = some operand →
        (e.visit n expected env).Fails
          { n with children := n.children.set arity (e.visit operand none env).value }
          (e.visit operand none env).env fault := by
  refine ⟨fun hreturn ht => ?_, fun hreturn => ?_, fun arity ht => ⟨fun short => ?_, ?_⟩⟩
  · rcases passes_or_allOrNothing he ⟨hreturn, ht⟩ with passes | atomic
    · rw [passes.error, hn] at failed
      cases failed
    · exact atomic.fails hn failed
  · cases hc : n.children with
    | nil =>
      have same : { n with children := [] } = n := by
        cases n
        cases hc
        rfl
      rw [List.modify_nil, same]
      exact (allOrNothing_empty_return he hreturn hc).fails hn failed
    | cons operand rest =>
      exact (allOrNothing_return he hreturn hc (visit_of_bare he)).fails hn failed
  · exact (allOrNothing_short_access he ht short).fails hn failed
  · intro operand hc
    exact (allOrNothing_access he ht hc).fails hn failed

/-- A structure that is declared in the place of a mapping. -/
def dealDefine : Node := { tag := .structDefine, children := [.leaf .text "Deal"] }

/-- The access fails, and the structure stays bound and queued. The return fails, and its operand
shows that it was looked at. -/
theorem visit_fails_deal :
    (visit {} { tag := .map1, children := [.leaf .raw "i", dealDefine] } none {}).value.error =
        some (.typeFault (.notAMapping "void" 1 {})) ∧
      (visit {} { tag := .map1, children := [.leaf .raw "i", dealDefine] } none {}).Fails
        { tag := .map1, children := [.leaf .raw "i", dealDefine.withType (some .void)] }
        { scope := [("Deal", .struct "Deal" [])]
          ledger := { decls := [dealDefine.withType (some .void)] } }
        (.typeFault (.notAMapping "void" 1 {})) ∧
      (visit {} { tag := .returnStatement, children := [.leaf .wordDefine "x"] } none {}).Fails
        { tag := .returnStatement, children := [(Node.leaf .wordDefine "x").finish] } {}
        (.unresolvedName "x" {}) := by
  have access : (visit {} { tag := .map1, children := [.leaf .raw "i", dealDefine] } none
      {}).value.error = some (.typeFault (.notAMapping "void" 1 {})) := by decide
  have operand : (visit {} { tag := .returnStatement, children := [.leaf .wordDefine "x"] } none
      {}).value.error = some (.unresolvedName "x" {}) := by decide
  exact ⟨access, ((visit_fails rfl rfl access).2.2 1 rfl).2 dealDefine rfl,
    (visit_fails rfl rfl operand).2.1 rfl⟩

end Engine

end ContractTyping
