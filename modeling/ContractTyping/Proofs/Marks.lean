import ContractTyping.Proofs.Visit

/-!
The marks of the pass: a type, a diagnostic, or being finished. Main statement:
`Engine.exclusive_visit`, no node of a finished tree carries two of them, wherever it stands and
wherever else a copy of it was put.
-/

namespace ContractTyping

namespace Node

/-- How many marks a node carries. -/
def marks (n : Node) : Nat := n.ty.isSome.toNat + n.error.isSome.toNat + n.done.toNat

/-- No node of the tree carries two marks. -/
def Exclusive (n : Node) : Prop := n.All fun m => m.marks ≤ 1

theorem exclusive_of {n : Node} (hn : n.marks ≤ 1) (hc : ∀ c ∈ n.children, c.Exclusive) :
    n.Exclusive :=
  all_iff.mpr ⟨hn, hc⟩

theorem Blank.marks_eq_zero {n : Node} (h : n.Blank) : n.marks = 0 := by
  obtain ⟨ht, he, hd⟩ := h
  simp [marks, ht, he, hd]

/-- A type is the only mark of a node that was blank before. -/
theorem Blank.marks_typed {n m : Node} (h : n.Blank) (he : m.error = n.error)
    (hd : m.done = n.done) (ht : m.ty.isSome = true) : m.marks = 1 := by
  obtain ⟨_, hne, hnd⟩ := h
  simp [marks, he, hd, ht, hne, hnd]

theorem Blank.marks_fail {n : Node} (h : n.Blank) (error : Diagnostic) :
    (n.fail error).marks = 1 := by
  obtain ⟨ht, _, hd⟩ := h
  simp [marks, fail, ht, hd]

theorem Blank.marks_finish {n : Node} (h : n.Blank) (children : List Node) :
    { n with children }.finish.marks = 1 := by
  obtain ⟨ht, he, _⟩ := h
  simp [marks, finish, ht, he]

theorem Unannotated.exclusive {n : Node} (h : n.Unannotated) : n.Exclusive :=
  All.mono (fun _ hm => by simp [hm.marks_eq_zero]) h

theorem Unannotated.child_exclusive {n c : Node} (h : n.Unannotated) (hc : c ∈ n.children) :
    c.Exclusive :=
  Unannotated.exclusive (All.child h hc)

/-- A blank node with a type and other children. -/
theorem Unannotated.exclusive_typed {n m : Node} (h : n.Unannotated) (he : m.error = n.error)
    (hd : m.done = n.done) (ht : m.ty.isSome = true) (hc : ∀ c ∈ m.children, c.Exclusive) :
    m.Exclusive :=
  exclusive_of (Nat.le_of_eq (h.self.marks_typed he hd ht)) hc

/-- A name that gets its type from outside. -/
theorem Unannotated.exclusive_withType {n : Node} (h : n.Unannotated) (ty : Ty) :
    (n.withType (some ty)).Exclusive :=
  h.exclusive_typed rfl rfl rfl fun _ hc => h.child_exclusive hc

theorem Unannotated.exclusive_fail {n : Node} (h : n.Unannotated) (error : Diagnostic) :
    (n.fail error).Exclusive :=
  exclusive_of (Nat.le_of_eq (h.self.marks_fail error)) fun _ hc => h.child_exclusive hc

theorem exclusive_leaf (tag : Tag) (s context : String) :
    ((leaf tag s).withContext context).Exclusive :=
  all_leaf (Nat.zero_le 1) rfl

theorem normalizeValue_marks (m : Node) : m.normalizeValue.marks = m.marks := by
  simp only [marks, normalizeValue_ty, normalizeValue_error, normalizeValue_done]

theorem Exclusive.normalizeValue {n : Node} (h : n.Exclusive) : n.normalizeValue.Exclusive :=
  All.normalizeValue (fun m hm => by rwa [normalizeValue_marks]) h

end Node

/-- The nodes that wait in the ledger carry at most one mark each. -/
structure Env.Exclusive (env : Env) : Prop where
  decls : ∀ d ∈ env.ledger.decls, d.Exclusive
  unguarded : ∀ p ∈ env.ledger.unguarded, p.Exclusive

theorem Env.Exclusive.addDecl {env : Env} (h : env.Exclusive) {d : Node} (hd : d.Exclusive) :
    (env.updateLedger (·.addDecl d)).Exclusive := by
  refine ⟨fun k hk => ?_, h.unguarded⟩
  rcases List.mem_append.mp hk with hk | hk
  · exact h.decls k hk
  · exact List.mem_singleton.mp hk ▸ hd

theorem Env.Exclusive.addUnguarded {env : Env} (h : env.Exclusive) {p : Node} (hp : p.Exclusive) :
    (env.updateLedger (·.addUnguarded p)).Exclusive := by
  refine ⟨h.decls, fun k hk => ?_⟩
  rcases List.mem_append.mp hk with hk | hk
  · exact h.unguarded k hk
  · exact List.mem_singleton.mp hk ▸ hp

/-- Nodes in the environment and the node that comes back carry at most one mark each. -/
def Pass.KeepsExclusive (p : Pass Node) : Prop :=
  p.Keeps Env.Exclusive Node.Exclusive

theorem Env.Exclusive.bind {env : Env} (h : env.Exclusive) (name : String) (ty : Ty) :
    (env.bind name ty).Exclusive :=
  ⟨h.decls, h.unguarded⟩

namespace Rule

open Pass

variable {visit : Visitor} {n : Node}

theorem exclusive_resolving (hn : n.Blank) (hc : ∀ c ∈ n.children, c.Exclusive) {name : String}
    {found : Ty → Pass Node} (h : ∀ ty, (found ty).KeepsExclusive) :
    (resolving n name found).KeepsExclusive := by
  refine (Keeps.lookup? name).bind fun ty _ _ => ?_
  cases ty with
  | some ty => exact h ty
  | none =>
    refine (Keeps.emit _).seq (Keeps.pure ?_)
    exact Node.exclusive_of (Nat.le_of_eq (hn.marks_fail _)) hc

theorem exclusive_adopting (hn : n.Unannotated) (expected : Option Ty) :
    (adopting visit n expected).KeepsExclusive :=
  Keeps.pure (hn.exclusive_withType _)

theorem exclusive_functionName (hn : n.Unannotated) (expected : Option Ty) :
    (functionName visit n expected).KeepsExclusive := by
  unfold functionName
  split
  · refine (Keeps.updateLedger fun env henv => ⟨henv.decls, henv.unguarded⟩).seq ?_
    exact Keeps.pure (hn.exclusive_withType _)
  · exact Keeps.pure (hn.exclusive_withType _)

theorem exclusive_importDecl (hn : n.Unannotated) (expected : Option Ty) :
    (importDecl visit n expected).KeepsExclusive := by
  unfold importDecl
  split
  · split
    · refine (Keeps.emit _).seq ?_
      refine (Keeps.updateLedger fun env henv => ⟨henv.decls, henv.unguarded⟩).seq ?_
      exact Keeps.pure (hn.exclusive_withType _)
    · exact Keeps.pure (hn.exclusive_fail _)
  · exact Keeps.pure (hn.exclusive_fail _)

theorem exclusive_raw (hn : n.Unannotated) (expected : Option Ty) :
    (raw visit n expected).KeepsExclusive := by
  refine (Keeps.lookup? n.text).bind fun ty _ _ => ?_
  cases ty with
  | some ty => exact Keeps.pure (hn.exclusive_withType ty)
  | none =>
    obtain ⟨_, he, hd⟩ := hn.self
    refine (Keeps.emit _).seq (Keeps.pure ?_)
    refine Node.exclusive_of ?_ fun c hc => hn.child_exclusive hc
    simp [Node.marks, Node.withType, he, hd]

theorem exclusive_typed_as (hn : n.Unannotated) (ty : Ty) :
    KeepsExclusive (pure (n.withType (some ty))) :=
  Keeps.pure (hn.exclusive_withType ty)

theorem exclusive_pair (hn : n.Unannotated) (expected : Option Ty) :
    (pair visit n expected).KeepsExclusive := by
  unfold pair
  split
  · rename_i first name rest hc
    have parts := fun c h => hn.child_exclusive (c := c) h
    rw [hc] at parts
    obtain ⟨hfirst, -, hrest⟩ : first.Exclusive ∧ name.Exclusive ∧ ∀ c ∈ rest, c.Exclusive := by
      simpa only [List.forall_mem_cons] using parts
    have hname : name.Unannotated := hn.child (by simp [hc])
    refine exclusive_resolving hn.self (fun _ => hn.child_exclusive) fun ty => Keeps.pure ?_
    refine hn.exclusive_typed rfl rfl rfl ?_
    simp only [List.forall_mem_cons]
    exact ⟨hfirst, hname.exclusive_withType ty, hrest⟩
  · exact Keeps.pure (hn.exclusive_fail _)

theorem exclusive_memoryMarker (ty : Ty) : ∀ c ∈ memoryMarker ty, c.Exclusive := by
  intro c hc
  unfold memoryMarker at hc
  split at hc
  · exact List.mem_singleton.mp hc ▸ Node.exclusive_leaf _ _ _
  · exact absurd hc List.not_mem_nil

theorem exclusive_awaitGuard (config : Config) (ty : Ty) {name : Node} (h : name.Exclusive) :
    (awaitGuard config ty name).Keeps Env.Exclusive fun _ => True := by
  unfold awaitGuard
  split
  · exact Keeps.updateLedger fun env henv => henv.addUnguarded h
  · exact Keeps.pure trivial

theorem exclusive_fdPair (config : Config) (hn : n.Unannotated) (expected : Option Ty) :
    (fdPair config visit n expected).KeepsExclusive := by
  unfold fdPair
  split
  · exact Keeps.pure (hn.exclusive_fail _)
  · rename_i name hl
    have hname : name.Unannotated := hn.child (List.mem_of_getLast? hl)
    refine exclusive_resolving hn.self (fun _ => hn.child_exclusive) fun ty => ?_
    have typed := hname.exclusive_withType ty
    refine (exclusive_awaitGuard config ty typed).seq (Keeps.pure ?_)
    refine hn.exclusive_typed rfl rfl rfl (List.forall_mem_append.mpr ⟨fun c hc => ?_, ?_⟩)
    · exact hn.child_exclusive (List.dropLast_subset _ hc)
    · exact List.forall_mem_cons.mpr ⟨typed, exclusive_memoryMarker ty⟩

/-- Guards hold parameters that waited in the ledger. -/
theorem exclusive_takeGuards (config : Config) :
    (takeGuards config).Keeps Env.Exclusive fun guards => ∀ g ∈ guards, g.Exclusive := by
  intro env henv
  refine ⟨List.forall_mem_map.mpr fun p hp => ?_, henv.decls, fun _ h => absurd h List.not_mem_nil⟩
  have comparison : Node.Exclusive
      { tag := .infixExpr
        children := [p, .leaf .nameExpr config.guardOperator, .leaf .text config.zeroAddress]
        span := p.span } := by
    refine Node.exclusive_of (Nat.zero_le 1) ?_
    simp only [List.forall_mem_cons]
    exact ⟨henv.unguarded p hp, Node.all_leaf (Nat.zero_le 1) rfl,
      Node.all_leaf (Nat.zero_le 1) rfl, by simp⟩
  exact Node.exclusive_of (Nat.zero_le 1) (List.forall_mem_singleton.mpr comparison)

theorem exclusive_markers (config : Config) (name body : Node) (returns : Ty) :
    ∀ c ∈ markers config name body returns, c.Exclusive := by
  have leaf := Node.exclusive_leaf
  have typed : (((Node.leaf .returnType returns.render).withContext "returns").withType
      (some returns)).Exclusive :=
    Node.all_leaf (Nat.le_refl 1) rfl
  intro c hc
  simp only [markers] at hc
  rcases List.mem_append.mp hc with hc | hc
  · split at hc
    · exact absurd hc List.not_mem_nil
    · exact List.mem_singleton.mp hc ▸ typed
  · split at hc
    · exact absurd hc List.not_mem_nil
    · rcases List.mem_cons.mp hc with rfl | hc
      · exact leaf _ _ _
      · split at hc
        · exact List.mem_singleton.mp hc ▸ leaf _ _ _
        · exact absurd hc List.not_mem_nil

/-! ## Rules that visit nodes below -/

section Below

variable (hn : n.Unannotated)
  (below : ∀ m : Node, m.Inside n → ∀ expected, (visit m expected).KeepsExclusive)

include below in
theorem exclusive_children {ms : List Node} (hm : ms ⊆ n.children) (expected : Option Ty) :
    (visitAll visit ms expected).Keeps Env.Exclusive fun ns => ∀ c ∈ ns, c.Exclusive :=
  Keeps.visitAll fun m h => below m (Node.inside_of_child (hm h)) expected

include hn below

theorem exclusive_block (expected : Option Ty) : (block visit n expected).KeepsExclusive := by
  refine (exclusive_children below (List.Subset.refl _) expected).bind fun children _ hc => ?_
  exact Keeps.pure (hn.exclusive_typed rfl rfl rfl hc)

theorem exclusive_importList (expected : Option Ty) :
    (importList visit n expected).KeepsExclusive := by
  unfold importList
  split
  · refine Keeps.pure (hn.exclusive_typed rfl rfl rfl fun c hc => ?_)
    rw [List.mem_singleton.mp hc]
    exact Node.all_leaf (Nat.zero_le 1) rfl
  · exact exclusive_block hn below expected

theorem exclusive_variableDecl (expected : Option Ty) :
    (variableDecl visit n expected).KeepsExclusive := by
  refine (exclusive_children below (List.Subset.refl _) none).bind fun children _ hc => ?_
  refine (Keeps.reads _).bind fun imports _ _ => ?_
  refine Keeps.pure (hn.exclusive_typed rfl rfl rfl ?_)
  refine List.forall_mem_append.mpr ⟨hc, List.forall_mem_map.mpr fun i _ => ?_⟩
  refine Node.exclusive_of (Nat.zero_le 1) ?_
  simp only [Import.toPair, List.forall_mem_cons]
  exact ⟨Node.exclusive_leaf _ _ _, Node.exclusive_leaf _ _ _, Node.exclusive_leaf _ _ _, by simp⟩

theorem exclusive_fdParam (expected : Option Ty) : (fdParam visit n expected).KeepsExclusive := by
  refine (exclusive_children below (List.Subset.refl _) expected).bind fun children _ hc => ?_
  exact Keeps.pure (hn.exclusive_typed rfl rfl rfl hc)

theorem exclusive_fdBody (expected : Option Ty) : (fdBody visit n expected).KeepsExclusive := by
  refine (exclusive_children below (List.Subset.refl _) none).bind fun children _ hc => ?_
  exact Keeps.pure (hn.exclusive_typed rfl rfl rfl hc)

theorem exclusive_finishing (expected : Option Ty) :
    (finishing visit n expected).KeepsExclusive := by
  refine (exclusive_children below (List.Subset.refl _) expected).bind fun children _ hc => ?_
  exact Keeps.pure
    (Node.exclusive_of (Nat.le_of_eq (hn.self.marks_finish children)) hc)

theorem exclusive_assign (expected : Option Ty) : (assign visit n expected).KeepsExclusive := by
  unfold assign
  split
  · rename_i target value rest hc
    have htarget := below target (Node.inside_of_child (by simp [hc]))
    have hvalue := below value (Node.inside_of_child (by simp [hc]))
    refine (htarget none).bind fun target' _ ht => ?_
    refine (hvalue target'.ty).bind fun value' _ hv => Keeps.pure ?_
    refine hn.exclusive_typed rfl rfl rfl ?_
    simp only [List.forall_mem_cons]
    exact ⟨ht, hv, fun c h => hn.child_exclusive (by simp [hc, h])⟩
  · exact Keeps.pure (hn.exclusive_fail _)

theorem exclusive_returnStatement (expected : Option Ty) :
    (returnStatement visit n expected).KeepsExclusive := by
  unfold returnStatement
  split
  · rename_i operand rest hc
    refine (below operand (Node.inside_of_child (by simp [hc])) expected).bind
      fun operand' _ ho => ?_
    have parts : ∀ c ∈ operand' :: rest, c.Exclusive := by
      simp only [List.forall_mem_cons]
      exact ⟨ho, fun c h => hn.child_exclusive (by simp [hc, h])⟩
    have typed : ∀ ty : Ty, KeepsExclusive
        (pure (Node.withType { n with children := operand' :: rest } (some ty))) :=
      fun ty => Keeps.pure (hn.exclusive_typed rfl rfl rfl parts)
    dsimp only
    split
    · exact typed _
    · exact exclusive_resolving (n := { n with children := operand' :: rest }) hn.self parts typed
    · exact typed _
  · exact Keeps.pure (hn.exclusive_fail _)

theorem exclusive_recordStatement (expected : Option Ty) :
    (recordStatement visit n expected).KeepsExclusive := by
  unfold recordStatement
  split
  · rename_i target event rest hc
    refine (below target (Node.inside_of_child (by simp [hc])) expected).bind
      fun target' _ ht => ?_
    refine (Keeps.reads _).bind fun display _ _ => ?_
    refine Keeps.pure (hn.exclusive_typed rfl rfl rfl ?_)
    simp only [List.cons_append, List.forall_mem_cons, List.forall_mem_append, List.forall_mem_map]
    exact ⟨ht, hn.child_exclusive (by simp [hc]), fun c h => hn.child_exclusive (by simp [hc, h]),
      fun _ _ => Node.exclusive_leaf _ _ _⟩
  · exact Keeps.pure (hn.exclusive_fail _)

theorem exclusive_mapping (arity : Nat) (expected : Option Ty) :
    (mapping arity visit n expected).KeepsExclusive := by
  unfold mapping
  split
  · exact Keeps.pure (hn.exclusive_fail _)
  · rename_i operand rest hd
    have hrest : ∀ c ∈ operand :: rest, c ∈ n.children := fun c hc =>
      List.mem_of_mem_drop (hd ▸ hc)
    have hoperand := below operand (Node.inside_of_child (hrest operand List.mem_cons_self))
    refine (hoperand none).bind fun operand' _ ho => ?_
    have parts : ∀ indices : List Node, (∀ c ∈ indices, c.Exclusive) →
        ∀ c ∈ indices ++ operand' :: rest, c.Exclusive := by
      intro indices hi
      simp only [List.forall_mem_append, List.forall_mem_cons]
      exact ⟨hi, ho, fun c h => hn.child_exclusive (hrest c (List.mem_cons_of_mem _ h))⟩
    split
    · refine (exclusive_children below (List.take_subset _ _) none).bind fun indices _ hi => ?_
      exact Keeps.pure (hn.exclusive_typed rfl rfl rfl (parts indices hi))
    · refine Keeps.pure (Node.exclusive_of ?_ (parts _ fun c h => ?_))
      · exact Nat.le_of_eq (Node.Blank.marks_fail (n := { n with children := _ }) hn.self _)
      · exact hn.child_exclusive (List.mem_of_mem_take h)

theorem exclusive_structDefine (expected : Option Ty) :
    (structDefine visit n expected).KeepsExclusive := by
  unfold structDefine
  split
  · rename_i name fields hc
    have hf : fields ⊆ n.children := fun c h => by simp [hc, h]
    refine (exclusive_children below hf expected).bind fun fields' _ h => ?_
    have decl : Node.Exclusive (Node.adopt { n with children := name :: fields' } expected) := by
      refine hn.exclusive_typed rfl rfl rfl (List.forall_mem_cons.mpr ⟨?_, h⟩)
      exact hn.child_exclusive (by simp [hc])
    refine (Keeps.bindName fun env henv => henv.bind _ _).seq ?_
    refine (Keeps.emit _).seq ?_
    refine (Keeps.updateLedger fun env henv => henv.addDecl decl).seq ?_
    exact Keeps.pure decl
  · exact Keeps.pure (hn.exclusive_fail _)

theorem exclusive_enumType (config : Config) (expected : Option Ty) :
    (enumType config visit n expected).KeepsExclusive := by
  refine (exclusive_children below (List.Subset.refl _) expected).bind fun children _ hc => ?_
  refine (Keeps.reads _).bind fun generated _ _ => ?_
  have name := Node.exclusive_leaf .text generated "name"
  have elements : Node.Exclusive { tag := .enumElement, children, context := some "data" } :=
    Node.exclusive_of (Nat.zero_le 1) hc
  have define : Node.Exclusive
      (Node.adopt { tag := .enumDefine, children := [_, _], span := n.span } expected) :=
    Node.exclusive_of (Nat.le_refl 1) (List.forall_mem_cons.mpr ⟨elements, by simpa using name⟩)
  refine (Keeps.emit _).seq ?_
  refine (Keeps.updateLedger fun env henv => henv.addDecl define).seq (Keeps.pure ?_)
  refine hn.exclusive_typed rfl rfl rfl ?_
  exact List.forall_mem_append.mpr ⟨hc, by simpa using name⟩

theorem exclusive_assumeDecl (expected : Option Ty) :
    (assumeDecl visit n expected).KeepsExclusive := by
  unfold assumeDecl
  split
  · rename_i name value rest hc
    have hname := below name (Node.inside_of_child (by simp [hc])) expected
    have hvalue := below value (Node.inside_of_child (by simp [hc])) expected
    have hr : rest ⊆ n.children := fun c h => by simp [hc, h]
    refine hname.bind fun name' _ hn' => ?_
    refine hvalue.bind fun value' _ hv => ?_
    refine (exclusive_children below hr expected).bind fun rest' _ hrest => ?_
    refine (Keeps.emit _).seq ?_
    refine (Keeps.bindName fun env henv => henv.bind _ _).seq ?_
    refine Keeps.pure (hn.exclusive_typed rfl rfl rfl ?_)
    simp only [List.forall_mem_cons]
    exact ⟨hn', hv.normalizeValue, hrest⟩
  · exact Keeps.pure (hn.exclusive_fail _)

omit hn in
theorem exclusive_unitChildren :
    (unitChildren visit n.children).Keeps Env.Exclusive fun ns => ∀ c ∈ ns, c.Exclusive := by
  unfold unitChildren
  split
  · exact Keeps.pure (by simp)
  · rename_i last hl
    split
    · have hlast := below last (Node.inside_of_child (List.mem_of_getLast? hl)) (some .void)
      refine hlast.bind fun last' _ h => ?_
      refine (exclusive_children below (List.dropLast_subset _) _).bind fun others _ ho => ?_
      exact Keeps.pure (List.forall_mem_append.mpr ⟨ho, by simpa using h⟩)
    · exact exclusive_children below (List.Subset.refl _) _

theorem exclusive_source (expected : Option Ty) : (source visit n expected).KeepsExclusive := by
  have empty : ∀ env : Env, Env.Exclusive (env.updateLedger fun _ => {}) := fun env =>
    ⟨fun _ h => absurd h List.not_mem_nil, fun _ h => absurd h List.not_mem_nil⟩
  refine (Keeps.updateLedger fun env _ => empty env).seq ?_
  refine (Keeps.emit _).seq ?_
  refine (exclusive_unitChildren below).bind fun children _ hc => ?_
  have taken : takeDecls.Keeps Env.Exclusive fun decls => ∀ d ∈ decls, d.Exclusive :=
    fun env henv => ⟨henv.decls, fun _ h => absurd h List.not_mem_nil, henv.unguarded⟩
  refine taken.bind fun decls _ hd => ?_
  refine (Keeps.emit _).seq ?_
  refine Keeps.pure (hn.exclusive_typed rfl rfl rfl ?_)
  refine List.forall_mem_append.mpr ⟨hc, ?_⟩
  have hoisted : (hoistedDecls decls).Exclusive := Node.exclusive_of (Nat.le_refl 1) hd
  simpa using hoisted

omit hn in
theorem exclusive_paramBlock {raw : Node} (hr : raw ∈ n.children) :
    (paramBlock visit raw).KeepsExclusive := by
  refine (Keeps.emit _).seq ?_
  have params := Keeps.visitAll fun m hm => below m (inside_of_mem_params hr hm) none
  refine params.bind fun children _ hc => Keeps.pure ?_
  exact Node.exclusive_of (Nat.le_refl 1) hc

omit hn in
theorem exclusive_bodyBlock {raw : Node} (hr : raw ∈ n.children) {guards : List Node}
    (hg : ∀ g ∈ guards, g.Exclusive) : (bodyBlock visit raw guards).KeepsExclusive := by
  refine (Keeps.emit _).seq ((Keeps.emitAll _).seq ?_)
  have statements := Keeps.visitAll fun m hm => below m (inside_of_mem_statements hr hm) none
  refine statements.bind fun children _ hc => Keeps.pure ?_
  exact Node.exclusive_of (Nat.le_refl 1) (List.forall_mem_append.mpr ⟨hg, hc⟩)

theorem exclusive_functionDecl (config : Config) (expected : Option Ty) :
    (functionDecl config visit n expected).KeepsExclusive := by
  unfold functionDecl
  split
  · rename_i name next more hc
    have hraw := rawBody_mem_children hc
    have hmiddle : ∀ c ∈ (next :: more).dropLast, c.Exclusive := fun c h =>
      hn.child_exclusive (hc ▸ List.mem_cons_of_mem _ (List.dropLast_subset _ h))
    refine (below name (Node.inside_of_child (by simp [hc])) expected).bind fun name' _ hname => ?_
    refine (exclusive_paramBlock below hraw).bind fun param _ hparam => ?_
    refine (exclusive_takeGuards config).bind fun guards _ hguards => ?_
    refine (Keeps.emitAll _).seq ?_
    refine (exclusive_bodyBlock below hraw hguards).bind fun body _ hbody => ?_
    refine (Keeps.bindName fun env henv => henv.bind _ _).seq ?_
    split
    · refine (Keeps.emitAll _).seq (Keeps.pure (Node.exclusive_of (Nat.le_refl 1) ?_))
      exact List.forall_mem_cons.mpr ⟨hname, List.forall_mem_singleton.mpr hparam⟩
    · refine Keeps.pure (hn.exclusive_typed rfl rfl rfl ?_)
      refine List.forall_mem_append.mpr ⟨?_, exclusive_markers _ _ _ _⟩
      refine List.forall_mem_append.mpr ⟨List.forall_mem_cons.mpr ⟨hname, hmiddle⟩, ?_⟩
      exact List.forall_mem_cons.mpr ⟨hparam, List.forall_mem_singleton.mpr hbody⟩
  · exact Keeps.pure (hn.exclusive_fail _)

end Below

end Rule

/-- No visit puts a second mark on a node, and none lets one into the ledger. -/
theorem Engine.exclusive_visit {e : Engine} (he : e.rules = []) (n : Node) (expected : Option Ty)
    (hn : n.Unannotated) : (e.visit n expected).KeepsExclusive := by
  revert hn
  refine e.visit_induction he (Q := fun m _ p => m.Unannotated → p.KeepsExclusive) ?_ ?_ n expected
  · intro n _ _ hn
    exact (Pass.Keeps.emit _).seq (Pass.Keeps.pure hn.exclusive)
  · intro n t r _ h ih expected hn
    have below : ∀ m : Node, m.Inside n → ∀ ex, (e.visit m ex).KeepsExclusive :=
      fun m hm ex => ih m hm ex (hn.inside hm)
    refine (Pass.Keeps.emit _).seq ?_
    cases h with
    | source => exact Rule.exclusive_source hn below expected
    | block => exact Rule.exclusive_block hn below expected
    | title | eventDecl => exact Rule.exclusive_adopting hn expected
    | importList => exact Rule.exclusive_importList hn below expected
    | importDecl => exact Rule.exclusive_importDecl hn expected
    | variableDecl => exact Rule.exclusive_variableDecl hn below expected
    | vPair | pair => exact Rule.exclusive_pair hn expected
    | functionDecl => exact Rule.exclusive_functionDecl hn below e.config expected
    | functionName => exact Rule.exclusive_functionName hn expected
    | fdParam => exact Rule.exclusive_fdParam hn below expected
    | fdPair => exact Rule.exclusive_fdPair e.config hn expected
    | fdBody => exact Rule.exclusive_fdBody hn below expected
    | assign => exact Rule.exclusive_assign hn below expected
    | returnStatement => exact Rule.exclusive_returnStatement hn below expected
    | recordStatement => exact Rule.exclusive_recordStatement hn below expected
    | completeStatement | intExpr => exact Rule.exclusive_typed_as hn _
    | map1 => exact Rule.exclusive_mapping hn below 1 expected
    | map2 => exact Rule.exclusive_mapping hn below 2 expected
    | raw => exact Rule.exclusive_raw hn expected
    | structDefine => exact Rule.exclusive_structDefine hn below expected
    | enumType => exact Rule.exclusive_enumType hn below e.config expected
    | wordDefine | assumeDecls => exact Rule.exclusive_finishing hn below expected
    | assumeDecl => exact Rule.exclusive_assumeDecl hn below expected

end ContractTyping
