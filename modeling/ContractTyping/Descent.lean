import ContractTyping.Engine
import ContractTyping.Proofs.Tree

/-!
Rules descend: what a built-in rule does to a node depends only on what its visitor does to the
nodes inside. So without rules for open kinds a bound on the depth of visits that reaches the size
of the tree changes nothing. Main statement: `Engine.visit_eq_step`, visiting a node is one step
whose visits below are visits again.
-/

namespace ContractTyping

/-- Two visitors do the same to every node inside `n`. -/
def AgreeBelow (n : Node) (v w : Visitor) : Prop := ∀ m : Node, m.Inside n → v m = w m

/-- A rule depends on its visitor only below the node it is applied to. -/
def Descends (r : Rule) : Prop :=
  ∀ (v w : Visitor) (n : Node), AgreeBelow n v w → r v n = r w n

namespace AgreeBelow

variable {n : Node} {v w : Visitor}

theorem child (h : AgreeBelow n v w) {m : Node} (hm : m ∈ n.children) : v m = w m :=
  h m (Node.inside_of_child hm)

theorem visitAll (h : AgreeBelow n v w) {ms : List Node} (hm : ∀ m ∈ ms, m.Inside n)
    (expected : Option Ty) : Rule.visitAll v ms expected = Rule.visitAll w ms expected := by
  induction ms with
  | nil => rfl
  | cons m ms ih =>
    have head := h m (hm m (by simp))
    have tail := ih fun k hk => hm k (by simp [hk])
    simp [Rule.visitAll, head, tail]

theorem children (h : AgreeBelow n v w) {ms : List Node} (hm : ∀ m ∈ ms, m ∈ n.children)
    (expected : Option Ty) : Rule.visitAll v ms expected = Rule.visitAll w ms expected :=
  h.visitAll (fun m hk => Node.inside_of_child (hm m hk)) expected

end AgreeBelow

namespace Rule

theorem descends_adopting : Descends adopting := fun _ _ _ _ => rfl

theorem descends_block : Descends block := by
  intro v w n h
  funext expected
  simp only [block]
  rw [h.children fun _ hm => hm]

theorem unitChildren_congr {v w : Visitor} {n : Node} (h : AgreeBelow n v w) :
    unitChildren v n.children = unitChildren w n.children := by
  unfold unitChildren
  split
  · rfl
  · rename_i last hl
    have all := h.children (fun _ hm => hm) (some .void)
    have front := h.children (fun _ hm => List.dropLast_subset n.children hm) (some .void)
    rw [all, front, h.child (List.mem_of_getLast? hl)]

theorem descends_source : Descends source := by
  intro v w n h
  funext expected
  simp only [source]
  rw [unitChildren_congr h]

theorem descends_importList : Descends importList := by
  intro v w n h
  funext expected
  unfold importList
  split
  · rfl
  · rw [h.children fun _ hm => hm]

theorem descends_importDecl : Descends importDecl := fun _ _ _ _ => rfl

theorem descends_variableDecl : Descends variableDecl := by
  intro v w n h
  funext expected
  simp only [variableDecl]
  rw [h.children fun _ hm => hm]

theorem descends_pair : Descends pair := fun _ _ _ _ => rfl

theorem descends_raw : Descends raw := fun _ _ _ _ => rfl

theorem descends_intExpr : Descends intExpr := fun _ _ _ _ => rfl

theorem descends_mapping (arity : Nat) : Descends (mapping arity) := by
  intro v w n h
  funext expected
  unfold mapping
  split
  · rfl
  · rename_i operand rest hd
    have mem : operand ∈ n.children := List.mem_of_mem_drop (hd ▸ List.mem_cons_self)
    rw [h.child mem, h.children fun _ hm => List.mem_of_mem_take hm]

theorem descends_assign : Descends assign := by
  intro v w n h
  funext expected
  unfold assign
  split
  · rename_i target value rest hc
    rw [h.child (m := target) (by simp [hc]), h.child (m := value) (by simp [hc])]
  · rfl

theorem descends_returnStatement : Descends returnStatement := by
  intro v w n h
  funext expected
  unfold returnStatement
  split
  · rename_i operand rest hc
    rw [h.child (m := operand) (by simp [hc])]
  · rfl

theorem descends_recordStatement : Descends recordStatement := by
  intro v w n h
  funext expected
  unfold recordStatement
  split
  · rename_i target event rest hc
    rw [h.child (m := target) (by simp [hc])]
  · rfl

theorem descends_completeStatement : Descends completeStatement := fun _ _ _ _ => rfl

theorem descends_functionName : Descends functionName := fun _ _ _ _ => rfl

theorem descends_fdParam : Descends fdParam := by
  intro v w n h
  funext expected
  simp only [fdParam]
  rw [h.children fun _ hm => hm]

theorem descends_fdPair (config : Config) : Descends (fdPair config) := fun _ _ _ _ => rfl

theorem descends_fdBody : Descends fdBody := by
  intro v w n h
  funext expected
  simp only [fdBody]
  rw [h.children fun _ hm => hm]

theorem rawBody_mem_children {n name next : Node} {more : List Node}
    (hc : n.children = name :: next :: more) : rawBody next more ∈ n.children :=
  hc ▸ List.mem_cons_of_mem _ (List.getLast_mem _)

/-- A parameter stands in a slot of the raw body. -/
theorem inside_of_mem_params {n raw m : Node} (hr : raw ∈ n.children)
    (hm : m ∈ params raw) : m.Inside n := by
  obtain ⟨slot, hs, hm⟩ := List.mem_filterMap.mp hm
  have inside := (Node.inside_of_child hr).child (List.mem_filter.mp hs).1
  exact inside.child (List.mem_of_head? hm)

theorem inside_of_mem_statements {n raw m : Node} (hr : raw ∈ n.children)
    (hm : m ∈ statements raw) : m.Inside n :=
  (Node.inside_of_child hr).child (List.mem_filter.mp hm).1

theorem paramBlock_congr {v w : Visitor} {n raw : Node} (h : AgreeBelow n v w)
    (hr : raw ∈ n.children) : paramBlock v raw = paramBlock w raw := by
  unfold paramBlock
  rw [h.visitAll fun m hm => inside_of_mem_params hr hm]

theorem bodyBlock_congr {v w : Visitor} {n raw : Node} (h : AgreeBelow n v w)
    (hr : raw ∈ n.children) (guards : List Node) :
    bodyBlock v raw guards = bodyBlock w raw guards := by
  unfold bodyBlock
  rw [h.visitAll fun m hm => inside_of_mem_statements hr hm]

theorem descends_functionDecl (config : Config) : Descends (functionDecl config) := by
  intro v w n h
  funext expected
  unfold functionDecl
  split
  · rename_i name next more hc
    have hr := rawBody_mem_children hc
    simp only [paramBlock_congr h hr, bodyBlock_congr h hr]
    rw [h.child (m := name) (by simp [hc])]
  · rfl

theorem descends_structDefine : Descends structDefine := by
  intro v w n h
  funext expected
  unfold structDefine
  split
  · rename_i name fields hc
    rw [h.children fun m hm => by simp [hc, hm]]
  · rfl

theorem descends_enumType (config : Config) : Descends (enumType config) := by
  intro v w n h
  funext expected
  simp only [enumType]
  rw [h.children fun _ hm => hm]

theorem descends_finishing : Descends finishing := by
  intro v w n h
  funext expected
  simp only [finishing]
  rw [h.children fun _ hm => hm]

theorem descends_assumeDecl : Descends assumeDecl := by
  intro v w n h
  funext expected
  unfold assumeDecl
  split
  · rename_i name value rest hc
    have others : visitAll v rest expected = visitAll w rest expected :=
      h.children (fun m hm => by simp [hc, hm]) expected
    rw [h.child (m := name) (by simp [hc]), h.child (m := value) (by simp [hc]), others]
  · rfl

end Rule

namespace Engine

theorem descends_rule {e : Engine} (he : e.rules = []) {t : Tag} {r : Rule}
    (h : e.rule? t = some r) : Descends r := by
  cases t with
  | source => exact Option.some.inj h ▸ Rule.descends_source
  | block => exact Option.some.inj h ▸ Rule.descends_block
  | title => exact Option.some.inj h ▸ Rule.descends_adopting
  | importList => exact Option.some.inj h ▸ Rule.descends_importList
  | importDecl => exact Option.some.inj h ▸ Rule.descends_importDecl
  | variableDecl => exact Option.some.inj h ▸ Rule.descends_variableDecl
  | vPair => exact Option.some.inj h ▸ Rule.descends_pair
  | pair => exact Option.some.inj h ▸ Rule.descends_pair
  | functionDecl => exact Option.some.inj h ▸ Rule.descends_functionDecl e.config
  | functionName => exact Option.some.inj h ▸ Rule.descends_functionName
  | fdParam => exact Option.some.inj h ▸ Rule.descends_fdParam
  | fdPair => exact Option.some.inj h ▸ Rule.descends_fdPair e.config
  | fdBody => exact Option.some.inj h ▸ Rule.descends_fdBody
  | eventDecl => exact Option.some.inj h ▸ Rule.descends_adopting
  | assign => exact Option.some.inj h ▸ Rule.descends_assign
  | returnStatement => exact Option.some.inj h ▸ Rule.descends_returnStatement
  | recordStatement => exact Option.some.inj h ▸ Rule.descends_recordStatement
  | completeStatement => exact Option.some.inj h ▸ Rule.descends_completeStatement
  | map1 => exact Option.some.inj h ▸ Rule.descends_mapping 1
  | map2 => exact Option.some.inj h ▸ Rule.descends_mapping 2
  | raw => exact Option.some.inj h ▸ Rule.descends_raw
  | intExpr => exact Option.some.inj h ▸ Rule.descends_intExpr
  | structDefine => exact Option.some.inj h ▸ Rule.descends_structDefine
  | enumType => exact Option.some.inj h ▸ Rule.descends_enumType e.config
  | wordDefine => exact Option.some.inj h ▸ Rule.descends_finishing
  | assumeDecls => exact Option.some.inj h ▸ Rule.descends_finishing
  | assumeDecl => exact Option.some.inj h ▸ Rule.descends_assumeDecl
  | other name => simp [rule?, he] at h
  | _ => simp [rule?] at h

theorem descends_step {e : Engine} (he : e.rules = []) : Descends e.step := by
  intro v w n h
  funext expected
  simp only [step]
  cases hr : e.rule? n.tag with
  | none => rfl
  | some r => simp only [descends_rule he hr v w n h]

/-- Bounds that reach the size of the tree give the same visit. -/
theorem visitWithin_eq {e : Engine} (he : e.rules = []) {j k : Nat} {n : Node}
    (hj : n.size ≤ j) (hk : n.size ≤ k) : e.visitWithin j n = e.visitWithin k n := by
  have pos := n.size_pos
  induction j generalizing k n with
  | zero => omega
  | succ j ih =>
    cases k with
    | zero => omega
    | succ k =>
      refine descends_step he _ _ n fun m hm => ?_
      have smaller := hm.size_lt
      exact ih (by omega) (by omega) m.size_pos

/-- Visiting a node is one step whose visits below are visits again. -/
theorem visit_eq_step {e : Engine} (he : e.rules = []) (n : Node) :
    e.visit n = e.step e.visit n := by
  have pos := n.size_pos
  have whole : e.visit n = e.visitWithin (n.size + 1) n := visitWithin_eq he (by omega) (by omega)
  rw [whole]
  refine descends_step he _ _ n fun m hm => ?_
  have smaller := hm.size_lt
  exact visitWithin_eq he (by omega) (by omega)

end Engine

end ContractTyping
