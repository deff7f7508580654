import ContractTyping.Proofs.Visit
import Mathlib.Logic.Function.Iterate

/-!
The effort of a visit. The log tells of every visit, also of the blocks and the event that a
function makes of its raw body, and of the guards in front of the body. A node is worth two visits,
and so is a parameter that waits for a guard: its guard is paid for when the parameter starts to
wait, wherever the guard is visited in the end. Main statements: `Engine.iterate_step`, visits
descend no further than the size of the tree; and `Engine.spends_visit`, a visit costs no more than
its tree is worth.
-/

namespace ContractTyping

/-- Tells of a visit. -/
def Event.isDispatch (e : Event) : Bool := e.level == .trace && e.message == "dispatch"

/-- No other event is taken for one that tells of a visit. -/
theorem Event.isDispatch_iff {e : Event} : e.isDispatch = true ↔ ∃ t, e = .dispatch t := by
  constructor
  · intro h
    obtain ⟨trace, told⟩ := Bool.and_eq_true_iff.mp h
    cases e with
    | dispatch t => exact ⟨t, rfl⟩
    | rawUntyped =>
      change ("raw name left untyped" == "dispatch") = true at told
      exact absurd told (by decide)
    | _ => cases trace
  · rintro ⟨t, rfl⟩
    rfl

/-- How many visits a log tells of. -/
def dispatches (log : List Event) : Nat := log.countP Event.isDispatch

@[simp]
theorem dispatches_append (log log' : List Event) :
    dispatches (log ++ log') = dispatches log + dispatches log' :=
  List.countP_append

/-- How many parameters wait for a guard. -/
def Env.waiting (env : Env) : Nat := env.ledger.unguarded.length

/-! ## Credit -/

namespace Pass

/-- The visits that the log tells of and those that guards will take are paid for by the credit. -/
def Spends (p : Pass α) (credit : Nat) : Prop :=
  ∀ env, dispatches (p env).log + 2 * (p env).env.waiting ≤ credit + 2 * env.waiting

namespace Spends

variable {p : Pass α} {q : Pass β} {c j k : Nat}

theorem mono (h : p.Spends j) (le : j ≤ c) : p.Spends c := by
  intro env
  have := h env
  omega

theorem pure (a : α) : (Pure.pure a : Pass α).Spends c := by
  intro env
  show 0 + 2 * env.waiting ≤ c + 2 * env.waiting
  omega

theorem bind {f : α → Pass β} (hp : p.Spends j) (hf : ∀ a, (f a).Spends k) (le : j + k ≤ c) :
    (p >>= f).Spends c := by
  intro env
  have before := hp env
  have after := hf (p env).value (p env).env
  rw [bind_log, bind_env, dispatches_append]
  omega

theorem emitAll (es : List Event) : (Pass.emitAll es).Spends (dispatches es) :=
  fun _ => Nat.le_refl _

theorem dispatch (t : Tag) : (Pass.emit (.dispatch t)).Spends 1 := fun _ => Nat.le_refl _

/-- A computation without visits, after which no more parameters wait, is free. -/
theorem free {f : α → Pass β} (quiet : ∀ env, dispatches (p env).log = 0)
    (fewer : ∀ env, (p env).env.waiting ≤ env.waiting) (hf : ∀ a, (f a).Spends c) :
    (p >>= f).Spends c := by
  refine bind (j := 0) (k := c) (fun env => ?_) hf (by omega)
  have told := quiet env
  have waits := fewer env
  omega

theorem emit {e : Event} (h : e.isDispatch = false) (hq : q.Spends c) :
    (do Pass.emit e; q).Spends c := by
  have none : dispatches [e] = 0 := List.countP_eq_zero.mpr (by simp [h])
  exact free (fun _ => none) (fun _ => Nat.le_refl _) fun _ => hq

theorem asks (f : Env → α) {g : α → Pass β} (hg : ∀ a, (g a).Spends c) :
    (Pass.asks f >>= g).Spends c :=
  free (fun _ => rfl) (fun _ => Nat.le_refl _) hg

theorem bindName (name : String) (ty : Ty) (hq : q.Spends c) :
    (do Pass.bindName name ty; q).Spends c :=
  free (fun _ => rfl) (fun _ => Nat.le_refl _) fun _ => hq

theorem updateLedger {f : Ledger → Ledger}
    (h : ∀ l, (f l).unguarded.length ≤ l.unguarded.length) (hq : q.Spends c) :
    (do Pass.updateLedger f; q).Spends c :=
  free (fun _ => rfl) (fun env => h env.ledger) fun _ => hq

/-- The last visits of a computation, after which a value is returned. -/
theorem last {f : α → β} (hp : p.Spends c) :
    (do let a ← p; return f a : Pass β).Spends c :=
  hp.bind (k := 0) (fun _ => pure _) (Nat.le_refl _)

theorem visitAll {visit : Visitor} {expected : Option Ty} {ms : List Node}
    (h : ∀ m ∈ ms, (visit m expected).Spends (2 * m.size)) :
    (Rule.visitAll visit ms expected).Spends (2 * Node.sizeList ms) := by
  induction ms with
  | nil => exact pure []
  | cons m ms ih =>
    have tail := ih fun k hk => h k (List.mem_cons_of_mem _ hk)
    refine (h m List.mem_cons_self).bind (fun n => tail.last) ?_
    rw [Node.sizeList]
    omega

end Spends

end Pass

/-! ## What the parts of a tree are worth -/

namespace Node

theorem sizeList_append (ms ns : List Node) :
    sizeList (ms ++ ns) = sizeList ms + sizeList ns := by
  induction ms with
  | nil => simp [sizeList]
  | cons m ms ih =>
    rw [List.cons_append, sizeList, sizeList, ih]
    omega

theorem sizeList_take_drop (k : Nat) (ns : List Node) :
    sizeList (ns.take k) + sizeList (ns.drop k) = sizeList ns := by
  rw [← sizeList_append, List.take_append_drop]

end Node

theorem Rule.sizeList_params_statements (ns : List Node) :
    Node.sizeList ((ns.filter isParam).filterMap (·.children.head?)) +
      Node.sizeList (ns.filter (!isParam ·)) ≤ Node.sizeList ns := by
  induction ns with
  | nil => simp [Node.sizeList]
  | cons n ns ih =>
    rw [Node.sizeList]
    cases slot : isParam n with
    | false =>
      simp only [List.filter_cons, slot, Bool.not_false, ↓reduceIte, Bool.false_eq_true,
        Node.sizeList]
      omega
    | true =>
      simp only [List.filter_cons, slot, Bool.not_true, ↓reduceIte, Bool.false_eq_true,
        List.filterMap_cons]
      cases first : n.children.head? with
      | none =>
        dsimp only
        omega
      | some m =>
        have smaller := Node.size_lt_of_mem_children (List.mem_of_head? first)
        rw [Node.sizeList]
        omega

/-! ## Rules -/

namespace Rule

open Pass

variable {visit : Visitor} {n : Node} {expected : Option Ty} {c : Nat}

theorem spends_resolving {name : String} {found : Ty → Pass Node}
    (h : ∀ ty, (found ty).Spends c) : (resolving n name found).Spends c := by
  refine Spends.asks _ fun ty => ?_
  cases ty with
  | some ty => exact h ty
  | none => exact .emit rfl (.pure _)

theorem spends_pair : (pair visit n expected).Spends c := by
  unfold pair
  split
  · exact spends_resolving fun ty => .pure _
  · exact .pure _

theorem spends_raw : (raw visit n expected).Spends c := by
  refine Spends.asks _ fun ty => ?_
  cases ty with
  | some ty => exact .pure _
  | none => exact .emit rfl (.pure _)

theorem spends_importDecl : (importDecl visit n expected).Spends c := by
  unfold importDecl
  split
  · split
    · exact .emit rfl (.updateLedger (fun _ => Nat.le_refl _) (.pure _))
    · exact .pure _
  · exact .pure _

theorem spends_functionName : (functionName visit n expected).Spends c := by
  unfold functionName
  split
  · exact .updateLedger (fun _ => Nat.le_refl _) (.pure _)
  · exact .pure _

/-- A parameter that starts to wait pays for the two visits of its guard. -/
theorem spends_awaitGuard (config : Config) (ty : Ty) (name : Node) :
    (awaitGuard config ty name).Spends 2 := by
  unfold awaitGuard
  split
  · intro env
    show 0 + 2 * (env.ledger.unguarded ++ [name]).length ≤ 2 + 2 * env.ledger.unguarded.length
    rw [List.length_append, List.length_singleton]
    omega
  · exact .pure _

theorem spends_fdPair (config : Config) :
    (fdPair config visit n expected).Spends (2 * Node.sizeList n.children) := by
  unfold fdPair
  split
  · exact .pure _
  · rename_i name last
    have worth := Node.size_le_sizeList (List.mem_of_getLast? last)
    have pos := name.size_pos
    refine spends_resolving fun ty => ?_
    exact ((spends_awaitGuard config ty _).mono (by omega)).last

section Children

variable (below : ∀ m : Node, m.Inside n → ∀ ex, (visit m ex).Spends (2 * m.size))

include below

theorem spends_child {m : Node} (h : m ∈ n.children) (ex : Option Ty) :
    (visit m ex).Spends (2 * m.size) :=
  below m (Node.inside_of_child h) ex

theorem spends_children {ms : List Node} (h : ms ⊆ n.children) (ex : Option Ty) :
    (visitAll visit ms ex).Spends (2 * Node.sizeList ms) :=
  Spends.visitAll fun _ hm => spends_child below (h hm) ex

/-- Visiting all children and going on without a visit. -/
theorem spends_each {rebuild : List Node → Pass Node} (h : ∀ os, (rebuild os).Spends 0) :
    (visitAll visit n.children expected >>= rebuild).Spends (2 * Node.sizeList n.children) :=
  (spends_children below (List.Subset.refl _) expected).bind h (Nat.le_refl _)

theorem spends_unitChildren :
    (unitChildren visit n.children).Spends (2 * Node.sizeList n.children) := by
  unfold unitChildren
  split
  · exact .pure _
  · rename_i last hl
    split
    · have trailing := spends_child below (List.mem_of_getLast? hl) (some .void)
      have others := spends_children below (List.dropLast_subset n.children) (some .void)
      have whole := congrArg Node.sizeList (List.dropLast_append_getLast? last hl)
      rw [Node.sizeList_append] at whole
      simp only [Node.sizeList] at whole
      exact trailing.bind (fun _ => others.last) (by omega)
    · exact spends_children below (List.Subset.refl _) _

theorem spends_source : (source visit n expected).Spends (2 * Node.sizeList n.children) := by
  refine .updateLedger (fun _ => Nat.zero_le _) (.emit rfl ?_)
  refine (spends_unitChildren below).bind (k := 0) (fun children => ?_) (Nat.le_refl _)
  exact .free (fun _ => rfl) (fun _ => Nat.le_refl _) fun decls => .emit rfl (.pure _)

theorem spends_importList :
    (importList visit n expected).Spends (2 * Node.sizeList n.children) := by
  unfold importList
  split
  · exact .pure _
  · exact spends_each below fun _ => .pure _

theorem spends_assign : (assign visit n expected).Spends (2 * Node.sizeList n.children) := by
  unfold assign
  split
  · rename_i target value rest hc
    have first := spends_child below (m := target) (by simp [hc])
    have second := spends_child below (m := value) (by simp [hc])
    simp only [hc, Node.sizeList]
    exact (first none).bind (fun target' => (second target'.ty).last) (by omega)
  · exact .pure _

theorem spends_returnStatement :
    (returnStatement visit n expected).Spends (2 * Node.sizeList n.children) := by
  unfold returnStatement
  split
  · rename_i operand rest hc
    have first := spends_child below (m := operand) (by simp [hc]) expected
    simp only [hc, Node.sizeList]
    refine first.bind (k := 0) (fun operand' => ?_) (by omega)
    split
    · exact .pure _
    · exact spends_resolving fun ty => .pure _
    · exact .pure _
  · exact .pure _

theorem spends_recordStatement :
    (recordStatement visit n expected).Spends (2 * Node.sizeList n.children) := by
  unfold recordStatement
  split
  · rename_i target event rest hc
    have first := spends_child below (m := target) (by simp [hc]) expected
    simp only [hc, Node.sizeList]
    exact first.bind (k := 0) (fun target' => .asks _ fun _ => .pure _) (by omega)
  · exact .pure _

/-- The indices are visited after the operand, if they are visited at all. -/
theorem spends_mapping (arity : Nat) :
    (mapping arity visit n expected).Spends (2 * Node.sizeList n.children) := by
  unfold mapping
  split
  · exact .pure _
  · rename_i operand rest hd
    have child : operand ∈ n.children := List.mem_of_mem_drop (hd ▸ List.mem_cons_self)
    have first := spends_child below child none
    have indices := spends_children below (List.take_subset arity n.children) none
    have whole := Node.sizeList_take_drop arity n.children
    rw [hd, Node.sizeList] at whole
    refine first.bind (k := 2 * Node.sizeList (n.children.take arity)) (fun operand' => ?_)
      (by omega)
    split
    · exact indices.last
    · exact .pure _

theorem spends_structDefine :
    (structDefine visit n expected).Spends (2 * Node.sizeList n.children) := by
  unfold structDefine
  split
  · rename_i name fields hc
    have sub : fields ⊆ n.children := hc ▸ List.subset_cons_self name fields
    have visits := spends_children below sub expected
    simp only [hc, Node.sizeList]
    refine visits.bind (k := 0) (fun fields' => .bindName _ _ (.emit rfl ?_)) (by omega)
    exact .updateLedger (fun _ => Nat.le_refl _) (.pure _)
  · exact .pure _

theorem spends_enumType (config : Config) :
    (enumType config visit n expected).Spends (2 * Node.sizeList n.children) := by
  refine spends_each below fun children => .asks _ fun generated => .emit rfl ?_
  exact .updateLedger (fun _ => Nat.le_refl _) (.pure _)

theorem spends_assumeDecl :
    (assumeDecl visit n expected).Spends (2 * Node.sizeList n.children) := by
  unfold assumeDecl
  split
  · rename_i name value rest hc
    have first := spends_child below (m := name) (by simp [hc]) expected
    have second := spends_child below (m := value) (by simp [hc]) expected
    have sub : rest ⊆ n.children := fun m hm => by simp [hc, hm]
    have others := spends_children below sub expected
    simp only [hc, Node.sizeList]
    refine first.bind (k := 2 * value.size + 2 * Node.sizeList rest) (fun name' => ?_) (by omega)
    refine second.bind (fun value' => others.bind (k := 0) (fun rest' => ?_) (Nat.le_refl _))
      (Nat.le_refl _)
    exact .emit rfl (.bindName _ _ (.pure _))
  · exact .pure _

end Children

/-! ## Functions -/

theorem dispatches_map {f : Node → Event} (h : ∀ p, (f p).isDispatch = true) (ps : List Node) :
    dispatches (ps.map f) = ps.length := by
  rw [dispatches, List.countP_map]
  exact List.countP_eq_length.mpr fun p _ => h p

/-- The guards of the parameters that waited have been paid for: one visit here, one in the body. -/
theorem spends_takeGuards (config : Config) {f : List Node → Pass β}
    (h : ∀ guards, (f guards).Spends (guards.length + c)) : (takeGuards config >>= f).Spends c := by
  intro env
  have told : dispatches (takeGuards config env).log = env.waiting := by
    show dispatches (env.ledger.unguarded.map _ ++ []) = _
    rw [List.append_nil]
    exact dispatches_map (fun _ => rfl) _
  have many : (takeGuards config env).value.length = env.waiting := List.length_map ..
  have none : (takeGuards config env).env.waiting = 0 := rfl
  have rest := h (takeGuards config env).value (takeGuards config env).env
  rw [bind_log, bind_env, dispatches_append]
  omega

theorem announceGuards_dispatches (function : String) (guards : List Node) (env : Env) :
    dispatches (announceGuards function guards env).log = 0 := by
  show dispatches (if guards.isEmpty then [] else [.guarded function guards.length]) = 0
  split <;> rfl

theorem spends_concludeFunction (config : Config) (name : Node) (middle : List Node)
    (param body : Node) : (concludeFunction config n expected name middle param body).Spends 1 := by
  refine .bindName _ _ ?_
  split
  · exact (Spends.emitAll _).last
  · exact .pure _

section Blocks

variable (below : ∀ m : Node, m.Inside n → ∀ ex, (visit m ex).Spends (2 * m.size))
  {raw : Node} (child : raw ∈ n.children)

include below child

theorem spends_paramBlock :
    (paramBlock visit raw).Spends (1 + 2 * Node.sizeList (params raw)) := by
  have visits := Spends.visitAll fun m hm => below m (inside_of_mem_params child hm) none
  exact (Spends.dispatch _).bind (fun _ => visits.last) (Nat.le_refl _)

theorem spends_bodyBlock (guards : List Node) :
    (bodyBlock visit raw guards).Spends
      (1 + (guards.length + 2 * Node.sizeList (statements raw))) := by
  have told := dispatches_map (f := fun g => .dispatch g.tag) (fun _ => rfl) guards
  have visits := Spends.visitAll fun m hm => below m (inside_of_mem_statements child hm) none
  refine (Spends.dispatch _).bind (fun _ => ?_) (Nat.le_refl _)
  exact (Spends.emitAll _).bind (fun _ => visits.last) (Nat.le_of_eq (by rw [told]))

/-- The guarded body, and the event that the function may become. -/
theorem spends_guardedBody (config : Config) (function : String) (name : Node) (middle : List Node)
    (param : Node) :
    Spends (do
      let guards ← takeGuards config
      announceGuards function guards
      let body ← bodyBlock visit raw guards
      concludeFunction config n expected name middle param body)
      (2 + 2 * Node.sizeList (statements raw)) := by
  refine spends_takeGuards config fun guards => ?_
  refine .free (announceGuards_dispatches _ guards) (fun _ => Nat.le_refl _) fun _ => ?_
  refine (spends_bodyBlock below child guards).bind
    (fun body => spends_concludeFunction config _ _ param body) ?_
  omega

end Blocks

/-- The declaration, its two blocks and the event that it may become are four visits: two are paid
for by the declaration and two by its raw body. -/
theorem spends_functionDecl (config : Config)
    (below : ∀ m : Node, m.Inside n → ∀ ex, (visit m ex).Spends (2 * m.size)) :
    (functionDecl config visit n expected).Spends (2 * Node.sizeList n.children + 1) := by
  unfold functionDecl
  split
  · rename_i first next more hc
    have child := rawBody_mem_children hc
    have named := below first (Node.inside_of_child (by simp [hc])) expected
    have parts := sizeList_params_statements (rawBody next more).children
    have size := (rawBody next more).size_eq
    have last : (rawBody next more).size ≤ Node.sizeList (next :: more) :=
      Node.size_le_sizeList (List.getLast_mem _)
    have whole : Node.sizeList n.children = first.size + Node.sizeList (next :: more) := by
      rw [hc, Node.sizeList]
    refine named.bind (fun name => (spends_paramBlock below child).bind
      (fun param => spends_guardedBody below child config _ name _ param) (Nat.le_refl _)) ?_
    unfold params statements
    omega
  · exact .pure _

end Rule

namespace Engine

variable {e : Engine}

/-- Whatever stands in place of visits below that depth is never reached. -/
theorem iterate_step (he : e.rules = []) (beyond : Visitor) {depth : Nat} {n : Node}
    (h : n.size ≤ depth) : e.step^[depth] beyond n = e.visit n := by
  induction depth generalizing n with
  | zero =>
    have pos := n.size_pos
    omega
  | succ depth ih =>
    rw [Function.iterate_succ_apply', visit_eq_step he]
    refine descends_step he _ _ n fun m hm => ih ?_
    have smaller := hm.size_lt
    omega

/-- **A visit costs no more than its tree is worth.** -/
theorem spends_visit (he : e.rules = []) (n : Node) (expected : Option Ty) :
    (e.visit n expected).Spends (2 * n.size) := by
  refine e.visit_induction he (Q := fun m _ p => p.Spends (2 * m.size)) ?_ ?_ n expected
  · intro n _ _
    have pos := n.size_pos
    exact (Pass.Spends.dispatch _).bind (k := 0) (fun _ => .pure _) (by omega)
  · intro n t r _ h below expected
    have size := n.size_eq
    refine (Pass.Spends.dispatch _).bind (k := 2 * Node.sizeList n.children + 1) (fun _ => ?_)
      (by omega)
    by_cases function : t = .functionDecl
    · subst function
      cases h
      exact Rule.spends_functionDecl e.config below
    refine Pass.Spends.mono (j := 2 * Node.sizeList n.children) ?_ (by omega)
    cases h with
    | source => exact Rule.spends_source below
    | block | fdParam | fdBody | wordDefine | assumeDecls =>
      exact Rule.spends_each below fun _ => .pure _
    | title | eventDecl | completeStatement | intExpr => exact .pure _
    | importList => exact Rule.spends_importList below
    | importDecl => exact Rule.spends_importDecl
    | variableDecl =>
      exact Rule.spends_each below fun _ => .asks _ fun _ => .pure _
    | vPair | pair => exact Rule.spends_pair
    | functionDecl => exact absurd rfl function
    | functionName => exact Rule.spends_functionName
    | fdPair => exact Rule.spends_fdPair e.config
    | assign => exact Rule.spends_assign below
    | returnStatement => exact Rule.spends_returnStatement below
    | recordStatement => exact Rule.spends_recordStatement below
    | map1 | map2 => exact Rule.spends_mapping below _
    | raw => exact Rule.spends_raw
    | structDefine => exact Rule.spends_structDefine below
    | enumType => exact Rule.spends_enumType below e.config
    | assumeDecl => exact Rule.spends_assumeDecl below

/-- **One pass, with a linear number of visits.** Whatever stands in place of the visits below a
depth of the tree's size is never reached, so every visit comes to an end. A visit tells of at most
two visits for each node, where a parameter that waits counts for the two visits of its guard. -/
theorem visit_dispatches (config : Config) (n : Node) (expected : Option Ty) (env : Env) :
    (∀ (beyond : Visitor) (spare : Nat),
      (step { config })^[n.size + spare] beyond n expected env =
        visit { config } n expected env) ∧
    dispatches (visit { config } n expected env).log +
        2 * (visit { config } n expected env).env.ledger.unguarded.length ≤
      2 * n.size + 2 * env.ledger.unguarded.length ∧
    dispatches (checkUnit { config } n).log ≤ 2 * n.size := by
  refine ⟨fun beyond spare => ?_, spends_visit rfl n expected env, ?_⟩
  · rw [iterate_step rfl beyond (Nat.le_add_right _ _)]
  · have unit := spends_visit (e := { config }) rfl n (some .void) (.ofConfig config)
    have idle : (Env.ofConfig config).waiting = 0 := rfl
    show dispatches (visit { config } n (some .void) (.ofConfig config)).log ≤ 2 * n.size
    omega

/-- With its guard, a parameter takes more visits than the declaration has nodes. -/
example :
    let send : Node :=
      { tag := .functionDecl
        children := [
          .leaf .nameExpr "send",
          { tag := .block
            children := [
              { tag := .functionParam
                children := [{ tag := .fdPair, children := [.leaf .nameExpr "to"] }] }] }] }
    send.size = 6 ∧
      dispatches (visit {} send none { scope := [("to", .named "address")] }).log = 7 := by
  decide

end Engine

end ContractTyping
