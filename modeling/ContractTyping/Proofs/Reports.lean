import ContractTyping.Proofs.Hoisting
import Mathlib.Algebra.BigOperators.Group.List.Basic
import Mathlib.Algebra.Order.Group.Multiset

/-!
Names that are not in scope are reported twice: by an event of the log and by a diagnostic on a
node. A visit keeps the two accounts together. The names that a tree reports are those that the log
reports since the visit began, or fewer where a function became an event and dropped its body.
Copies that wait to be hoisted end below a node for declarations and are left out. Main statement:
`Engine.tells_visit`.
-/

namespace ContractTyping

/-- A name that is not in scope, and the kind of node that asked for it. -/
abbrev Report := String × Tag

def Event.report? : Event → Option Report
  | .untyped name tag => some (name, tag)
  | _ => none

/-- What a log reports. -/
def reported (log : List Event) : Multiset Report := ↑(log.filterMap Event.report?)

namespace Node

def report? (n : Node) : Option Report :=
  match n.error with
  | some (.unresolvedName name _) => some (name, n.tag)
  | _ => none

mutual

/-- The nodes of a tree that do not stand inside a node for declarations. -/
def visible : Node → List Node
  | n@⟨tag, children, _, _, _, _, _, _⟩ =>
    n :: if tag = .typeDecls then [] else visibleList children

def visibleList : List Node → List Node
  | [] => []
  | n :: ns => n.visible ++ visibleList ns

end

/-- What the nodes of a tree report, hoisted declarations apart. -/
def reports (n : Node) : Multiset Report := ↑(n.visible.filterMap report?)

def reportsOf (ns : List Node) : Multiset Report := (ns.map reports).sum

@[simp]
theorem reportsOf_nil : reportsOf [] = 0 := rfl

@[simp]
theorem reportsOf_cons (n : Node) (ns : List Node) :
    reportsOf (n :: ns) = n.reports + reportsOf ns := by
  simp [reportsOf]

@[simp]
theorem reportsOf_append (ms ns : List Node) :
    reportsOf (ms ++ ns) = reportsOf ms + reportsOf ns := by
  simp [reportsOf]

theorem reportsOf_eq_zero {ns : List Node} (h : ∀ n ∈ ns, n.reports = 0) : reportsOf ns = 0 :=
  List.sum_eq_zero (List.forall_mem_map.mpr h)

theorem visibleList_reports (ns : List Node) :
    (↑((visibleList ns).filterMap report?) : Multiset Report) = reportsOf ns := by
  induction ns with
  | nil => rfl
  | cons n ns ih =>
    rw [visibleList, List.filterMap_append, ← Multiset.coe_add, ih, reportsOf_cons]
    rfl

theorem reports_eq (n : Node) :
    n.reports =
      ↑n.report?.toList + if n.tag = .typeDecls then 0 else reportsOf n.children := by
  obtain ⟨tag, children, payload, ty, context, error, done, span⟩ := n
  have own : ∀ (m : Node) (ms : List Node), (↑((m :: ms).filterMap report?) : Multiset Report) =
      ↑m.report?.toList + ↑(ms.filterMap report?) := by
    intro m ms
    rw [Multiset.coe_add]
    cases h : m.report? <;> simp [h]
  rw [reports, visible, own]
  split
  · rfl
  · rw [visibleList_reports]

theorem reports_of_children {n : Node} (shown : n.tag ≠ .typeDecls) (own : n.error = none) :
    n.reports = reportsOf n.children := by
  simp [reports_eq n, shown, report?, own]

theorem reports_withType (n : Node) (ty : Option Ty) : (n.withType ty).reports = n.reports := by
  rw [reports_eq, reports_eq n]
  rfl

theorem Unannotated.reports_eq_zero {n : Node} (h : n.Unannotated) : n.reports = 0 := by
  induction n using induction_on_children with
  | step n ih =>
    have below := reportsOf_eq_zero fun c hc => ih c hc (h.child hc)
    simp [reports_eq n, report?, h.self.2.1, below]

theorem normalizeValue_reports (n : Node) : n.normalizeValue.reports = n.reports := by
  induction n using induction_on_children with
  | step n ih =>
    have below : reportsOf (n.children.map normalizeValue) = reportsOf n.children := by
      rw [reportsOf, List.map_map]
      exact congrArg List.sum (List.map_congr_left ih)
    rw [reports_eq, reports_eq n, normalizeValue_tag, normalizeValue_children, below]
    simp only [report?, normalizeValue_error, normalizeValue_tag]

end Node

/-! ## Computations that keep the accounts together -/

/-- What was found was told, and where nothing gets lost all that was told was found. -/
def Accounts (exact : Prop) (found told : Multiset Report) : Prop :=
  found ≤ told ∧ (exact → found = told)

theorem Accounts.of_eq {exact : Prop} {found told : Multiset Report} (h : found = told) :
    Accounts exact found told :=
  ⟨h.le, fun _ => h⟩

theorem Accounts.trans {exact : Prop} {a b c : Multiset Report} (h : Accounts exact a b)
    (h' : Accounts exact b c) : Accounts exact a c :=
  ⟨h.1.trans h'.1, fun he => (h.2 he).trans (h'.2 he)⟩

theorem Accounts.add {exact : Prop} {a b c d : Multiset Report} (h : Accounts exact a b)
    (h' : Accounts exact c d) : Accounts exact (a + c) (b + d) :=
  ⟨add_le_add h.1 h'.1, fun he => by rw [h.2 he, h'.2 he]⟩

theorem reported_append (log log' : List Event) :
    reported (log ++ log') = reported log + reported log' := by
  simp [reported, List.filterMap_append]

/-- Nodes that wait for guards report nothing. -/
def Env.Silent (env : Env) : Prop := ∀ p ∈ env.ledger.unguarded, p.reports = 0

namespace Pass

/-- Some names have been told. With those that the computation tells, they are the names that its
value reports. -/
def Tells (exact : Prop) (told : Multiset Report) (found : α → Multiset Report) (p : Pass α) :
    Prop :=
  ∀ env, env.Silent →
    Accounts exact (found (p env).value) (told + reported (p env).log) ∧ (p env).env.Silent

namespace Tells

variable {exact : Prop} {told : Multiset Report} {found : α → Multiset Report}

theorem pure {a : α} (h : Accounts exact (found a) told) : Tells exact told found (pure a) := by
  intro env silent
  exact ⟨by simpa [reported] using h, silent⟩

theorem bind {f : β → Multiset Report} {p : Pass β} {q : β → Pass α} (hp : Tells exact 0 f p)
    (hq : ∀ b, p.Returns b → Tells exact (told + f b) found (q b)) :
    Tells exact told found (p >>= q) := by
  intro env silent
  obtain ⟨first, silent⟩ := hp env silent
  obtain ⟨second, silent⟩ := hq _ (p.returns_self env) _ silent
  refine ⟨second.trans ?_, silent⟩
  rw [zero_add] at first
  rw [bind_log, reported_append, ← add_assoc]
  exact ((Accounts.of_eq rfl).add first).add (.of_eq rfl)

/-- A step that reports nothing. -/
theorem keep {R : β → Prop} {p : Pass β} {q : β → Pass α} (hp : p.Keeps Env.Silent R)
    (quiet : ∀ env, reported (p env).log = 0)
    (hq : ∀ b, p.Returns b → R b → Tells exact told found (q b)) :
    Tells exact told found (p >>= q) := by
  intro env silent
  obtain ⟨fact, silent⟩ := hp env silent
  obtain ⟨second, silent⟩ := hq _ (p.returns_self env) fact _ silent
  refine ⟨?_, silent⟩
  rwa [bind_log, reported_append, quiet, zero_add]

theorem emit {q : Pass α} {e : Event} (h : e.report? = none) (hq : Tells exact told found q) :
    Tells exact told found (do Pass.emit e; q) :=
  keep (Keeps.emit e) (fun _ => by simp [reported, h]) fun _ _ _ => hq

theorem emitAll {q : Pass α} {es : List Event} (h : ∀ e ∈ es, e.report? = none)
    (hq : Tells exact told found q) : Tells exact told found (do Pass.emitAll es; q) := by
  refine keep (Keeps.emitAll es) (fun _ => ?_) fun _ _ _ => hq
  simpa [reported, List.filterMap_eq_nil_iff] using h

theorem bindName {q : Pass α} (name : String) (ty : Ty) (hq : Tells exact told found q) :
    Tells exact told found (do Pass.bindName name ty; q) :=
  keep (Keeps.bindName fun _ h => h) (fun _ => rfl) fun _ _ _ => hq

theorem updateLedger {q : Pass α} {f : Ledger → Ledger}
    (h : ∀ l, (f l).unguarded = l.unguarded ∨ (f l).unguarded = [])
    (hq : Tells exact told found q) : Tells exact told found (do Pass.updateLedger f; q) := by
  refine keep (Keeps.updateLedger fun env silent p hp => ?_) (fun _ => rfl) fun _ _ _ => hq
  rcases h env.ledger with same | none
  · exact silent p (same ▸ hp)
  · exact absurd (none ▸ hp) List.not_mem_nil

theorem reads {f : Env → β} {q : β → Pass α} (hq : ∀ b, Tells exact told found (q b)) :
    Tells exact told found (Pass.asks f >>= q) :=
  keep (Keeps.reads f) (fun _ => rfl) fun b _ _ => hq b

theorem visitAll {visit : Visitor} {expected : Option Ty} {ms : List Node}
    (h : ∀ m ∈ ms, (visit m expected).Tells exact 0 Node.reports) :
    (Rule.visitAll visit ms expected).Tells exact 0 Node.reportsOf := by
  induction ms with
  | nil => exact pure (.of_eq rfl)
  | cons m ms ih =>
    refine bind (h m List.mem_cons_self) fun o _ => ?_
    refine bind (ih fun k hk => h k (List.mem_cons_of_mem _ hk)) fun os _ => pure (.of_eq ?_)
    rw [Node.reportsOf_cons, zero_add]

end Tells

end Pass

/-! ## Rules -/

namespace Rule

open Pass Node

variable {exact : Prop} {n : Node} {told : Multiset Report}

/-- Returning a node whose children report what has been told. -/
theorem tells_children {out : Node} (shown : out.tag ≠ .typeDecls) (own : out.error = none)
    (h : reportsOf out.children = told) : Tells exact told reports (pure out) :=
  Tells.pure (.of_eq ((reports_of_children shown own).trans h))

/-- A fault of another kind, or no fault. -/
theorem tells_fail {m : Node} {error : Diagnostic} (shown : m.tag ≠ .typeDecls)
    (other : (m.fail error).report? = none) (h : reportsOf m.children = told) :
    Tells exact told reports (pure (m.fail error)) := by
  refine Tells.pure (.of_eq ?_)
  rw [reports_eq, other, ← h]
  exact (zero_add _).trans (if_neg shown)

/-- A name that is not in scope is told by the log and found on the node. -/
theorem tells_resolving {m : Node} {name : String} {found : Ty → Pass Node}
    (shown : m.tag ≠ .typeDecls) (h : reportsOf m.children = told)
    (hf : ∀ ty, (found ty).Tells exact told reports) :
    (resolving m name found).Tells exact told reports := by
  refine Tells.keep (Keeps.lookup? name) (fun _ => rfl) fun ty _ _ => ?_
  cases ty with
  | some ty => exact hf ty
  | none =>
    intro env silent
    refine ⟨.of_eq ?_, silent⟩
    have own : (m.fail (.unresolvedName name m.span)).reports =
        {(name, m.tag)} + reportsOf m.children := by
      rw [reports_eq]
      exact congrArg _ (if_neg shown)
    exact own.trans (by rw [h, add_comm]; rfl)

theorem memoryMarker_reports (ty : Ty) : reportsOf (memoryMarker ty) = 0 := by
  unfold memoryMarker
  split <;> rfl

theorem awaitGuard_silent (config : Config) (ty : Ty) {name : Node} (h : name.reports = 0) :
    (awaitGuard config ty name).Keeps Env.Silent fun _ => True := by
  unfold awaitGuard
  split
  · refine Keeps.updateLedger fun env silent p hp => ?_
    rcases List.mem_append.mp hp with hp | hp
    · exact silent p hp
    · exact List.mem_singleton.mp hp ▸ h
  · exact Keeps.pure trivial

theorem awaitGuard_quiet (config : Config) (ty : Ty) (name : Node) (env : Env) :
    reported (awaitGuard config ty name env).log = 0 := by
  unfold awaitGuard
  split <;> rfl

variable {visit : Visitor} {expected : Option Ty} (hn : n.Unannotated)
  (shown : n.tag ≠ .typeDecls)

section Unvisited

include hn

/-- Children that are not visited report nothing. -/
theorem rest_reports (rest : List Node) (h : rest ⊆ n.children) : reportsOf rest = 0 :=
  reportsOf_eq_zero fun _ hc => (hn.child (h hc)).reports_eq_zero

include shown

theorem tells_lacking (count : UInt64) : Tells exact 0 reports (pure (n.lacking count)) :=
  tells_fail shown rfl (rest_reports hn _ (List.Subset.refl _))

theorem tells_withType (ty : Option Ty) : Tells exact 0 reports (pure (n.withType ty)) :=
  tells_children shown hn.self.2.1 (rest_reports hn _ (List.Subset.refl _))

theorem tells_importDecl : (importDecl visit n expected).Tells exact 0 reports := by
  unfold importDecl
  split
  · split
    · exact Tells.emit rfl (Tells.updateLedger (fun _ => .inl rfl) (tells_withType hn shown _))
    · exact tells_fail shown rfl (rest_reports hn _ (List.Subset.refl _))
  · exact tells_lacking hn shown 3

theorem tells_functionName : (functionName visit n expected).Tells exact 0 reports := by
  unfold functionName
  split
  · exact Tells.updateLedger (fun _ => .inl rfl) (tells_withType hn shown _)
  · exact tells_withType hn shown _

theorem tells_raw : (raw visit n expected).Tells exact 0 reports := by
  refine Tells.keep (Keeps.lookup? n.text) (fun _ => rfl) fun ty _ _ => ?_
  cases ty with
  | some ty => exact tells_withType hn shown _
  | none => exact Tells.emit rfl (tells_withType hn shown _)

theorem tells_pair : (pair visit n expected).Tells exact 0 reports := by
  unfold pair
  split
  · rename_i first name rest hc
    have nothing := rest_reports hn _ (List.Subset.refl _)
    refine tells_resolving shown nothing fun ty => tells_children shown hn.self.2.1 ?_
    simpa [hc, reports_withType] using nothing
  · exact tells_lacking hn shown 2

theorem tells_fdPair (config : Config) :
    (fdPair config visit n expected).Tells exact 0 reports := by
  unfold fdPair
  split
  · exact tells_lacking hn shown 1
  · rename_i name hl
    have nothing := rest_reports hn _ (List.Subset.refl _)
    have typed : ∀ ty, (name.withType ty).reports = 0 := fun ty =>
      (reports_withType name ty).trans (hn.child (List.mem_of_getLast? hl)).reports_eq_zero
    refine tells_resolving shown nothing fun ty => ?_
    refine Tells.keep (awaitGuard_silent config ty (typed _)) (awaitGuard_quiet config ty _)
      fun _ _ _ => tells_children shown hn.self.2.1 ?_
    simp [rest_reports hn _ (List.dropLast_subset _), typed, memoryMarker_reports]

end Unvisited

section Children

variable (below : ∀ c ∈ n.children, ∀ ex, (visit c ex).Tells exact 0 reports)

include below

theorem tells_visits (ms : List Node) (h : ms ⊆ n.children) (ex : Option Ty) :
    (visitAll visit ms ex).Tells exact 0 reportsOf :=
  Tells.visitAll fun c hc => below c (h hc) ex

/-- Visiting all children and returning the node with them. -/
theorem tells_each (rebuild : List Node → Node)
    (h : ∀ os, (rebuild os).tag ≠ .typeDecls ∧ (rebuild os).error = none ∧
      (rebuild os).children = os) :
    Tells exact 0 reports (do let os ← visitAll visit n.children expected; return rebuild os) := by
  refine Tells.bind (tells_visits below _ (List.Subset.refl _) expected) fun os _ => ?_
  obtain ⟨shown, own, children⟩ := h os
  refine tells_children shown own ?_
  rw [children, zero_add]

theorem tells_unitChildren :
    (unitChildren visit n.children).Tells exact 0 reportsOf := by
  unfold unitChildren
  split
  · exact Tells.pure (.of_eq rfl)
  · rename_i last hl
    split
    · refine Tells.bind (below last (List.mem_of_getLast? hl) _) fun last' _ => ?_
      refine Tells.bind (tells_visits below _ (List.dropLast_subset _) _) fun os _ => ?_
      refine Tells.pure (.of_eq ?_)
      simp [add_comm]
    · exact tells_visits below _ (List.Subset.refl _) _

include hn shown

theorem tells_source : (source visit n expected).Tells exact 0 reports := by
  refine Tells.updateLedger (fun _ => .inr rfl) (Tells.emit rfl ?_)
  refine Tells.bind (tells_unitChildren below) fun os _ => ?_
  have takes : takeDecls.Keeps Env.Silent fun _ => True := fun _ silent => ⟨trivial, silent⟩
  refine Tells.keep takes (fun _ => rfl) fun decls _ _ => Tells.emit rfl ?_
  refine tells_children shown hn.self.2.1 ?_
  have hidden : (hoistedDecls decls).reports = 0 := rfl
  simp [Node.adopt, Node.withType, hidden]

theorem tells_importList : (importList visit n expected).Tells exact 0 reports := by
  unfold importList
  split
  · exact tells_children shown hn.self.2.1 rfl
  · exact tells_each below _ fun os => ⟨shown, hn.self.2.1, rfl⟩

theorem tells_variableDecl : (variableDecl visit n expected).Tells exact 0 reports := by
  refine Tells.bind (tells_visits below _ (List.Subset.refl _) none) fun os _ => ?_
  refine Tells.reads fun imports => tells_children shown hn.self.2.1 ?_
  have pairs : reportsOf (imports.map Import.toPair) = 0 := by
    refine reportsOf_eq_zero (List.forall_mem_map.mpr fun i _ => ?_)
    rfl
  simp [Node.adopt, Node.withType, pairs]

theorem tells_assign : (assign visit n expected).Tells exact 0 reports := by
  unfold assign
  split
  · rename_i target value rest hc
    have tail := rest_reports hn rest fun c h => by simp [hc, h]
    refine Tells.bind (below target (by simp [hc]) none) fun target' _ => ?_
    refine Tells.bind (below value (by simp [hc]) target'.ty) fun value' _ => ?_
    refine tells_children shown hn.self.2.1 ?_
    simp [tail]
  · exact tells_lacking hn shown 2

theorem tells_returnStatement : (returnStatement visit n expected).Tells exact 0 reports := by
  unfold returnStatement
  split
  · rename_i operand rest hc
    have tail := rest_reports hn rest fun c h => by simp [hc, h]
    refine Tells.bind (below operand (by simp [hc]) expected) fun operand' _ => ?_
    have children : reportsOf (operand' :: rest) = 0 + operand'.reports := by simp [tail]
    have typed : ∀ ty, Tells exact (0 + operand'.reports) reports
        (pure ({ n with children := operand' :: rest }.withType ty)) :=
      fun ty => tells_children shown hn.self.2.1 children
    dsimp only
    split
    · exact typed _
    · exact tells_resolving shown children fun ty => typed _
    · exact typed _
  · exact tells_lacking hn shown 1

theorem tells_recordStatement : (recordStatement visit n expected).Tells exact 0 reports := by
  unfold recordStatement
  split
  · rename_i target event rest hc
    have tail := rest_reports hn (event :: rest) fun c h => by
      simp only [hc]
      exact List.mem_cons_of_mem _ h
    refine Tells.bind (below target (by simp [hc]) expected) fun target' _ => ?_
    refine Tells.reads fun display => tells_children shown hn.self.2.1 ?_
    have label : reportsOf (display.toList.map fun text =>
        (Node.leaf .text text).withContext "name") = 0 := by
      cases display <;> rfl
    dsimp only
    rw [reportsOf_append, label, reportsOf_cons, tail]
    simp
  · exact tells_lacking hn shown 2

theorem tells_mapping {arity : Nat} : (mapping arity visit n expected).Tells exact 0 reports := by
  unfold mapping
  split
  · exact tells_lacking hn shown _
  · rename_i operand rest hc
    have child : operand ∈ n.children := List.mem_of_mem_drop (hc ▸ List.mem_cons_self)
    have front := rest_reports hn _ (List.take_subset arity _)
    have tail := rest_reports hn rest fun c h => List.mem_of_mem_drop
      (hc ▸ List.mem_cons_of_mem _ h)
    refine Tells.bind (below operand child none) fun operand' _ => ?_
    split
    · refine Tells.bind (tells_visits below _ (List.take_subset arity _) none) fun indices _ => ?_
      refine tells_children shown hn.self.2.1 ?_
      simp [tail, add_comm]
    · refine tells_fail shown rfl ?_
      simp [front, tail]

theorem tells_structDefine : (structDefine visit n expected).Tells exact 0 reports := by
  unfold structDefine
  split
  · rename_i name fields hc
    have unvisited := (hn.child (c := name) (by simp [hc])).reports_eq_zero
    have visits := tells_visits below fields (fun c h => by simp [hc, h]) expected
    refine Tells.bind visits fun fields' _ => ?_
    refine Tells.bindName _ _ (Tells.emit rfl (Tells.updateLedger (fun _ => .inl rfl) ?_))
    refine tells_children shown hn.self.2.1 ?_
    simp [Node.adopt, Node.withType, unvisited]
  · exact tells_lacking hn shown 1

theorem tells_enumType (config : Config) :
    (enumType config visit n expected).Tells exact 0 reports := by
  refine Tells.bind (tells_visits below _ (List.Subset.refl _) expected) fun children _ => ?_
  refine Tells.reads fun generated => ?_
  refine Tells.emit rfl (Tells.updateLedger (fun _ => .inl rfl) ?_)
  refine tells_children shown hn.self.2.1 ?_
  have name : ((Node.leaf .text generated).withContext "name").reports = 0 := rfl
  simp [Node.adopt, Node.withType, name]

theorem tells_assumeDecl : (assumeDecl visit n expected).Tells exact 0 reports := by
  unfold assumeDecl
  split
  · rename_i name value rest hc
    have visits := tells_visits below rest (fun c h => by simp [hc, h]) expected
    refine Tells.bind (below name (by simp [hc]) expected) fun name' _ => ?_
    refine Tells.bind (below value (by simp [hc]) expected) fun value' _ => ?_
    refine Tells.bind visits fun rest' _ => ?_
    refine Tells.emit rfl (Tells.bindName _ _ (tells_children shown hn.self.2.1 ?_))
    simp [normalizeValue_reports, add_assoc]
  · exact tells_lacking hn shown 2

end Children

/-! ## Functions -/

theorem takeGuards_silent (config : Config) :
    (takeGuards config).Keeps Env.Silent fun guards =>
      ∀ g ∈ guards, g.tag ≠ .eventStatement ∧ g.reports = 0 := by
  intro env silent
  refine ⟨List.forall_mem_map.mpr fun p hp => ⟨by simp [guardOf], ?_⟩, ?_⟩
  · have operands : (guardOf config p).reports = p.reports := by
      simp [guardOf, reports_of_children, Node.leaf]
    rw [operands, silent p hp]
  · exact fun p hp => absurd hp List.not_mem_nil

theorem takeGuards_quiet (config : Config) (env : Env) :
    reported (takeGuards config env).log = 0 := by
  simp [takeGuards, reported, List.filterMap_eq_nil_iff, Event.report?]

theorem announceGuards_quiet (function : String) (guards : List Node) (env : Env) :
    reported (announceGuards function guards env).log = 0 := by
  unfold announceGuards
  split <;> rfl

theorem markers_reports (config : Config) (name body : Node) (returns : Ty) :
    reportsOf (markers config name body returns) = 0 := by
  unfold markers
  rw [reportsOf_append]
  split <;> split
  · rfl
  · split <;> rfl
  · rfl
  · split <;> rfl

section Function

variable (below : ∀ m : Node, m.Inside n → ∀ ex, (visit m ex).Tells exact 0 reports)

include below

theorem tells_paramBlock {raw : Node} (hr : raw ∈ n.children) :
    (paramBlock visit raw).Tells exact 0 reports := by
  have visits := Tells.visitAll fun m (hm : m ∈ params raw) =>
    below m (inside_of_mem_params hr hm) none
  refine Tells.emit rfl (Tells.bind visits fun os _ => ?_)
  exact tells_children (by simp [sealParams]) rfl (zero_add _).symm

theorem tells_bodyBlock {raw : Node} (hr : raw ∈ n.children) {guards : List Node}
    (hg : ∀ g ∈ guards, g.reports = 0) : (bodyBlock visit raw guards).Tells exact 0 reports := by
  have visits := Tells.visitAll fun m (hm : m ∈ statements raw) =>
    below m (inside_of_mem_statements hr hm) none
  refine Tells.emit rfl (Tells.emitAll (List.forall_mem_map.mpr fun _ _ => rfl) ?_)
  refine Tells.bind visits fun os _ => tells_children (by simp [sealBody]) rfl ?_
  simp [sealBody, reportsOf_eq_zero hg]

include hn in
/-- The body of a function that becomes an event is dropped with what it reports. -/
theorem tells_functionDecl (config : Config) (ht : n.tag = .functionDecl)
    (head : ∀ (m : Node) ex, (visit m ex).Yields m.BecomesOf)
    (noEvents : exact → n.All fun m => m.tag ≠ .eventStatement) :
    (functionDecl config visit n expected).Tells exact 0 reports := by
  have shown : n.tag ≠ .typeDecls := by simp [ht]
  unfold functionDecl
  split
  · rename_i name next more hc
    have hraw := rawBody_mem_children hc
    have middle := rest_reports hn (next :: more).dropLast fun c h =>
      hc ▸ List.mem_cons_of_mem _ (List.dropLast_subset _ h)
    refine Tells.bind (below name (Node.inside_of_child (by simp [hc])) expected) fun name' _ => ?_
    refine Tells.bind (tells_paramBlock below hraw) fun param _ => ?_
    refine Tells.keep (takeGuards_silent config) (takeGuards_quiet config)
      fun guards _ hguards => ?_
    refine Tells.keep (Keeps.emitAll _) (announceGuards_quiet _ guards) fun _ _ _ => ?_
    have block := tells_bodyBlock below hraw fun g hg => (hguards g hg).2
    refine Tells.bind block fun body hbody => Tells.bindName _ _ ?_
    split
    · rename_i ends
      -- What the body reports has been told and is found no more.
      have kept : (eventOf n name' param expected).reports = name'.reports + param.reports := by
        rw [eventOf, Node.adopt, reports_withType, reports_of_children (by simp) rfl]
        simp
      refine Tells.emitAll (by simp [Event.report?]) (Tells.pure ⟨?_, fun he => ?_⟩)
      · rw [kept, zero_add]
        exact Multiset.le_add_right _ _
      · have noEvent := bodyBlock_noEvent head (fun g hg => (hguards g hg).1)
          (fun m hm => ((noEvents he).inside (inside_of_mem_statements hraw hm)).self) hbody
        exact absurd ends (by simp [noEvent])
    · refine tells_children shown hn.self.2.1 ?_
      rw [functionOf_children]
      simp [middle, markers_reports, add_assoc]
  · exact tells_lacking hn shown 2

end Function

end Rule

namespace Engine

open Pass

/-- **What a visit reports, it tells.** Nothing gets lost where no function can become an event. -/
theorem tells_visit {e : Engine} (he : e.rules = []) (exact : Prop) (n : Node)
    (expected : Option Ty) (hn : n.Unannotated)
    (noEvents : exact → n.All fun m => m.tag ≠ .eventStatement) :
    (e.visit n expected).Tells exact 0 Node.reports := by
  refine e.visit_induction he (Q := fun m _ p => m.Unannotated →
    (exact → m.All fun k => k.tag ≠ .eventStatement) → p.Tells exact 0 Node.reports) ?_ ?_ n
    expected hn noEvents
  · intro n _ _ hn _
    exact Tells.emit rfl (Tells.pure (.of_eq hn.reports_eq_zero))
  · intro n t r ht h inside expected hn noEvents
    have deep : ∀ m : Node, m.Inside n → ∀ ex, (e.visit m ex).Tells exact 0 Node.reports :=
      fun m hm ex => inside m hm ex (hn.inside hm) fun he => (noEvents he).inside hm
    have below := fun c hc => deep c (Node.inside_of_child hc)
    have shown : n.tag ≠ .typeDecls := by
      intro hidden
      rw [← ht, hidden] at h
      cases h
    refine Tells.emit rfl ?_
    cases h with
    | source => exact Rule.tells_source hn shown below
    | block | fdParam | fdBody | wordDefine | assumeDecls =>
      exact Rule.tells_each below _ fun os => ⟨shown, hn.self.2.1, rfl⟩
    | title | eventDecl | completeStatement | intExpr => exact Rule.tells_withType hn shown _
    | importList => exact Rule.tells_importList hn shown below
    | importDecl => exact Rule.tells_importDecl hn shown
    | variableDecl => exact Rule.tells_variableDecl hn shown below
    | vPair | pair => exact Rule.tells_pair hn shown
    | functionDecl => exact Rule.tells_functionDecl hn deep e.config ht (visit_head he) noEvents
    | functionName => exact Rule.tells_functionName hn shown
    | fdPair => exact Rule.tells_fdPair hn shown e.config
    | assign => exact Rule.tells_assign hn shown below
    | returnStatement => exact Rule.tells_returnStatement hn shown below
    | recordStatement => exact Rule.tells_recordStatement hn shown below
    | map1 | map2 => exact Rule.tells_mapping hn shown below
    | raw => exact Rule.tells_raw hn shown
    | structDefine => exact Rule.tells_structDefine hn shown below
    | enumType => exact Rule.tells_enumType hn shown below e.config
    | assumeDecl => exact Rule.tells_assumeDecl hn shown below

/-- **The accounts agree.** The nodes of a unit report no name that the log does not, and none more
often. Without events in the unit they report the same names equally often. -/
theorem checkUnit_reports (config : Config) (tree : Node) (blank : tree.Unannotated) :
    (checkUnit { config } tree).value.reports ≤ reported (checkUnit { config } tree).log ∧
      ((tree.All fun m => m.tag ≠ .eventStatement) →
        (checkUnit { config } tree).value.reports = reported (checkUnit { config } tree).log) := by
  have told := tells_visit (e := { config }) rfl (tree.All fun m => m.tag ≠ .eventStatement) tree
    (some .void) blank id
  have start : (Env.ofConfig config).Silent := fun p hp => absurd hp List.not_mem_nil
  have accounts := (told (.ofConfig config) start).1
  rwa [zero_add] at accounts

/-- A structure with an unknown field, which is hoisted, and a function that returns an unknown
name. -/
def unknownNames : Node :=
  { tag := .source
    children := [
      { tag := .structDefine
        children := [.leaf .nameExpr "S",
          { tag := .vPair, children := [.leaf .text "uint", .leaf .nameExpr "x"] }] },
      { tag := .functionDecl
        children := [.leaf .nameExpr "f",
          { tag := .block
            children := [{ tag := .returnStatement, children := [.leaf .nameExpr "y"] }] }] }] }

theorem checkUnit_reports_unknownNames :
    unknownNames.Unannotated ∧ (unknownNames.All fun m => m.tag ≠ .eventStatement) ∧
      (checkUnit {} unknownNames).value.reports = reported (checkUnit {} unknownNames).log ∧
      reported (checkUnit {} unknownNames).log = {("x", .vPair), ("y", .returnStatement)} :=
  ⟨by decide, by decide, (checkUnit_reports {} unknownNames (by decide)).2 (by decide), by decide⟩

end Engine

end ContractTyping
