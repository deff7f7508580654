import ContractTyping.Proofs.Comparison

/-!
The walk over the rules of two runs. Main statement: `Comparison.like_visit`, a lawful comparison
holds of the visits of a tree and of the relabelled tree.
-/

namespace ContractTyping

namespace Comparison

variable {K : Comparison}

/-! ## Rules -/

section Rules

open Rule

variable {e e' : Engine} (h : K.Lawful e e') {v v' : Visitor} {n : Node} {expected : Option Ty}

section Unvisited

include h

theorem like_adopt (n : Node) (expected : Option Ty) :
    K.run K.node (pure (n.adopt expected)) (pure ((n.relabel K.relabeling).adopt expected)) :=
  like_return h ((like_untouched h n).withType _)

theorem like_lacking (count : UInt64) :
    K.run K.node (pure (n.lacking count)) (pure ((n.relabel K.relabeling).lacking count)) :=
  like_return h ((like_untouched h n).lacking count)

theorem like_pair :
    K.run K.node (pair v n expected) (pair v' (n.relabel K.relabeling) expected) := by
  unfold pair
  rw [Node.relabel_children]
  rcases hc : n.children with _ | ⟨first, _ | ⟨name, rest⟩⟩
  · exact like_lacking h 2
  · exact like_lacking h 2
  · simp only [List.map_cons]
    rw [Node.relabel_text]
    refine like_resolving h (like_untouched h n) name.text fun ty => like_return h ?_
    have typed := h.rebuilt ((like_untouched h name).withType (some ty))
    exact ((like_untouched h n).withChildren
      (.cons (h.untouched first) (.cons typed (forall₂_untouched h rest)))).withType (some ty)

theorem like_raw : K.run K.node (raw v n expected) (raw v' (n.relabel K.relabeling) expected) := by
  unfold raw
  rw [Node.relabel_text]
  refine h.bind (h.lookup? n.text) fun ty ty' _ same => ?_
  subst same
  cases ty with
  | some ty => exact like_return h ((like_untouched h n).withType _)
  | none => exact like_emit h rfl rfl (like_return h ((like_untouched h n).withType _))

theorem like_functionName : K.run K.node (functionName v n expected)
    (functionName v' (n.relabel K.relabeling) expected) := by
  unfold functionName
  rw [Node.relabel_children]
  rcases n.children with _ | ⟨name, _ | ⟨display, _ | ⟨third, rest⟩⟩⟩
  · exact like_adopt h n expected
  · exact like_adopt h n expected
  · simp only [List.map_cons, List.map_nil]
    rw [Node.relabel_text, Node.relabel_text]
    exact like_seq h (h.addDisplayName _ _) (like_adopt h n expected)
  · exact like_adopt h n expected

theorem like_fdPair : K.run K.node (fdPair e.config v n expected)
    (fdPair e'.config v' (n.relabel K.relabeling) expected) := by
  unfold fdPair
  rw [Node.relabel_children, List.getLast?_map]
  rcases n.children.getLast? with _ | name
  · exact like_lacking h 1
  · dsimp only [Option.map_some]
    rw [Node.relabel_text]
    refine like_resolving h (like_untouched h n) name.text fun ty => ?_
    have typed := h.rebuilt ((like_untouched h name).withType (some ty))
    refine like_seq h (h.awaitGuard ty typed) (like_return h ?_)
    have marker : List.Forall₂ K.node (memoryMarker ty) (memoryMarker ty) := by
      unfold memoryMarker
      split
      · exact .cons (node_made h (Node.relabel_labelled _ _ (by decide))) .nil
      · exact .nil
    rw [← List.map_dropLast]
    exact ((like_untouched h n).withChildren
      (List.rel_append (forall₂_untouched h _) (.cons typed marker))).withType (some ty)

theorem like_importDecl : K.run K.node (importDecl v n expected)
    (importDecl v' (n.relabel K.relabeling) expected) := by
  unfold importDecl
  rw [Node.relabel_children]
  rcases n.children with _ | ⟨names, _ | ⟨path, _ | ⟨address, rest⟩⟩⟩
  · exact like_lacking h 3
  · exact like_lacking h 3
  · exact like_lacking h 3
  · simp only [List.map_cons]
    simp only [Node.descendant?_relabel]
    have fault : K.run K.node (pure (n.fail (.missingChild names.tag.name 2 names.span)))
        (pure ((n.relabel K.relabeling).fail (.missingChild (names.relabel K.relabeling).tag.name 2
          (names.relabel K.relabeling).span))) := by
      rw [names.renamed_relabel.tag, names.renamed_relabel.span]
      exact like_return h ((like_untouched h n).fail (.missingChild names.tag.name 2 names.span))
    rcases names.descendant? [0, 0] with _ | symbol
    · exact fault
    · rcases names.descendant? [1] with _ | short
      · exact fault
      · dsimp only [Option.map_some]
        simp only [Node.relabel_text]
        have entry := h.recordImport symbol.text
          ⟨ImportName.encode symbol.text, short.text, path.text, address.text⟩ rfl
        have both := like_seq h entry (like_adopt h n expected)
        simpa only [bind_assoc] using both

end Unvisited

/-- Only a bare string does not stand for a list of nodes. -/
theorem importList_eq_block (filled : n.children ≠ [] ∨ n.payload = none) :
    importList v n expected = block v n expected := by
  unfold importList
  split
  · rename_i hc hp
    simp [hc, hp] at filled
  · rfl

section Children

variable (below : ∀ c ∈ n.children, ∀ ex,
  K.run K.node (v c ex) (v' (c.relabel K.relabeling) ex))

include h below

theorem like_children {ms : List Node} (sub : ms ⊆ n.children) (ex : Option Ty) :
    K.run (List.Forall₂ K.node) (visitAll v ms ex)
      (visitAll v' (ms.map (Node.relabel K.relabeling)) ex) :=
  like_visitAll h fun m hm => below m (sub hm) ex

/-- Visiting all children and returning a node with them. -/
theorem like_each (ex : Option Ty) {rebuild rebuild' : List Node → Node}
    (hr : ∀ os os', List.Forall₂ K.node os os' → K.Like (rebuild os) (rebuild' os')) :
    K.run K.node (do let os ← visitAll v n.children ex; return rebuild os)
      (do let os ← visitAll v' (n.relabel K.relabeling).children ex; return rebuild' os) := by
  rw [Node.relabel_children]
  refine h.bind (like_children h below (List.Subset.refl _) ex) fun os os' _ hos => ?_
  exact like_return h (hr os os' hos)

theorem like_block : K.run K.node (block v n expected)
    (block v' (n.relabel K.relabeling) expected) :=
  like_each h below expected fun _ _ hos => ((like_untouched h n).withChildren hos).withType _

theorem like_finishing : K.run K.node (finishing v n expected)
    (finishing v' (n.relabel K.relabeling) expected) :=
  like_each h below expected fun _ _ hos => ((like_untouched h n).withChildren hos).finish

theorem like_fdParam : K.run K.node (fdParam v n expected)
    (fdParam v' (n.relabel K.relabeling) expected) := by
  refine like_each h below expected fun os os' hos => ?_
  unfold sealParams
  rw [types_like h hos]
  exact ((like_untouched h n).withChildren hos).withType _

theorem like_fdBody : K.run K.node (fdBody v n expected)
    (fdBody v' (n.relabel K.relabeling) expected) := by
  refine like_each h below none fun os os' hos => ?_
  unfold sealBody
  rw [resultType_like h hos]
  exact ((like_untouched h n).withChildren hos).withType _

theorem like_importList : K.run K.node (importList v n expected)
    (importList v' (n.relabel K.relabeling) expected) := by
  have head : n.Renamed K.relabeling (n.relabel K.relabeling) := n.renamed_relabel
  by_cases filled : n.children ≠ [] ∨ n.payload = none
  · have filled' : (n.relabel K.relabeling).children ≠ [] ∨
        (n.relabel K.relabeling).payload = none := by
      simpa only [Node.relabel_children, head.payload, ne_eq, List.map_eq_nil_iff] using filled
    rw [importList_eq_block filled, importList_eq_block filled']
    exact like_block h below
  · obtain ⟨hc, hp⟩ := not_or.mp filled
    obtain ⟨s, hp⟩ := Option.ne_none_iff_exists'.mp hp
    unfold importList
    rw [Node.relabel_children, head.payload, hp, not_not.mp hc]
    have nothing : K.node ((Node.leaf .noImport "").withSpan n.span)
        ((Node.leaf .noImport "").withSpan (n.relabel K.relabeling).span) :=
      h.rebuilt ⟨⟨rfl, rfl, rfl, K.relabeling.absent.symm, rfl, rfl, head.span⟩, .nil⟩
    exact like_return h ⟨⟨head.tag, rfl, rfl, head.context, head.error, head.done, head.span⟩,
      .cons nothing .nil⟩

theorem like_variableDecl : K.run K.node (variableDecl v n expected)
    (variableDecl v' (n.relabel K.relabeling) expected) := by
  unfold variableDecl
  rw [Node.relabel_children]
  refine h.bind (like_children h below (List.Subset.refl _) none) fun os os' _ hos => ?_
  refine h.bind h.imports fun imports imports' _ same => ?_
  subst same
  have pairs : List.Forall₂ K.node (imports.map Import.toPair) (imports.map Import.toPair) := by
    refine List.forall₂_same.mpr (List.forall_mem_map.mpr fun i _ => h.rebuilt ⟨?_, ?_⟩)
    · exact ⟨rfl, rfl, rfl, K.relabeling.absent.symm, rfl, rfl, K.relabeling.dummy.symm⟩
    · have label : ∀ s l, l ∈ ownLabels → K.node ((Node.leaf .text s).withContext l)
          ((Node.leaf .text s).withContext l) :=
        fun s l hl => node_made h (Node.relabel_labelled _ _ hl)
      exact .cons (label _ _ (by decide)) (.cons (label _ _ (by decide))
        (.cons (label _ _ (by decide)) .nil))
  exact like_return h (((like_untouched h n).withChildren (List.rel_append hos pairs)).withType _)

theorem like_assign : K.run K.node (assign v n expected)
    (assign v' (n.relabel K.relabeling) expected) := by
  unfold assign
  rw [Node.relabel_children]
  rcases hc : n.children with _ | ⟨target, _ | ⟨value, rest⟩⟩
  · exact like_lacking h 2
  · exact like_lacking h 2
  · simp only [List.map_cons]
    refine h.bind (below target (by simp [hc]) none) fun t t' _ ht => ?_
    rw [(h.renamed ht).ty]
    refine h.bind (below value (by simp [hc]) t.ty) fun o o' _ ho => like_return h ?_
    exact ((like_untouched h n).withChildren
      (.cons ht (.cons ho (forall₂_untouched h rest)))).withType (some .void)

theorem like_returnStatement : K.run K.node (returnStatement v n expected)
    (returnStatement v' (n.relabel K.relabeling) expected) := by
  unfold returnStatement
  rw [Node.relabel_children]
  rcases hc : n.children with _ | ⟨operand, rest⟩
  · exact like_lacking h 1
  · simp only [List.map_cons]
    refine h.bind (below operand (by simp [hc]) expected) fun o o' _ ho => ?_
    have filled := (like_untouched h n).withChildren (.cons ho (forall₂_untouched h rest))
    have typed : ∀ ty, K.run K.node (pure ({ n with children := o :: rest }.withType ty))
        (pure ({ n.relabel K.relabeling with
          children := o' :: rest.map (Node.relabel K.relabeling) }.withType ty)) :=
      fun ty => like_return h (filled.withType ty)
    have head := h.renamed ho
    rw [head.ty, head.error, head.payload]
    rcases o.ty with _ | ty
    · rcases o.error with _ | d
      · rcases hoc : o.children with _ | ⟨c, cs⟩
        · rw [(h.leaf ho).mpr hoc]
          rcases o.payload with _ | name
          · exact typed _
          · exact like_resolving h filled name fun ty => typed (some ty)
        · have nonempty := mt (h.leaf ho).mp (by simp [hoc])
          obtain ⟨c', cs', hoc'⟩ := List.exists_cons_of_ne_nil nonempty
          rw [hoc']
          exact typed _
      · exact typed _
    · exact typed _

theorem like_recordStatement : K.run K.node (recordStatement v n expected)
    (recordStatement v' (n.relabel K.relabeling) expected) := by
  unfold recordStatement
  rw [Node.relabel_children]
  rcases hc : n.children with _ | ⟨target, _ | ⟨event, rest⟩⟩
  · exact like_lacking h 2
  · exact like_lacking h 2
  · simp only [List.map_cons, Node.relabel_text]
    refine h.bind (below target (by simp [hc]) expected) fun t t' _ ht => ?_
    refine h.bind (h.displayName? event.text) fun display display' _ same => like_return h ?_
    subst same
    have label : ∀ text ∈ display.toList, K.node ((Node.leaf .text text).withContext "name")
        ((Node.leaf .text text).withContext "name") :=
      fun text _ => node_made h (Node.relabel_labelled _ _ (by decide))
    have kept := forall₂_untouched h (event :: rest)
    exact ((like_untouched h n).withChildren (.cons ht (List.rel_append kept
      (List.forall₂_same.mpr (List.forall_mem_map.mpr label))))).withType (some .void)

theorem like_mapping (arity : Nat) : K.run K.node (mapping arity v n expected)
    (mapping arity v' (n.relabel K.relabeling) expected) := by
  unfold mapping
  rw [Node.relabel_children, ← List.map_drop, ← List.map_take]
  rcases hd : n.children.drop arity with _ | ⟨operand, rest⟩
  · exact like_lacking h _
  · have child : operand ∈ n.children := List.mem_of_mem_drop (hd ▸ List.mem_cons_self)
    simp only [List.map_cons]
    refine h.bind (below operand child none) fun o o' _ ho => ?_
    have tail := List.Forall₂.cons ho (forall₂_untouched h rest)
    rw [(h.renamed ho).ty]
    rcases o.ty.bind (Ty.asMapping arity) with _ | ⟨params, returns⟩
    · have fault := ((like_untouched h n).withChildren
        (List.rel_append (forall₂_untouched h (n.children.take arity)) tail)).fail (.typeFault
          (.notAMapping (Ty.orUnknown o.ty).render arity.toUInt64 o.span))
      unfold notAMapping
      rw [(h.renamed ho).ty, (h.renamed ho).span]
      exact like_return h fault
    · have indices := like_children h below (List.take_subset arity n.children) none
      refine h.bind indices fun os os' _ hos => like_return h ?_
      exact ((like_untouched h n).withChildren (List.rel_append hos tail)).withType (some returns)

theorem like_structDefine (ht : n.tag = .structDefine) : K.run K.node (structDefine v n expected)
    (structDefine v' (n.relabel K.relabeling) expected) := by
  unfold structDefine
  rw [Node.relabel_children]
  rcases hc : n.children with _ | ⟨name, fields⟩
  · exact like_lacking h 1
  · simp only [List.map_cons, Node.relabel_text]
    have sub : fields ⊆ n.children := hc ▸ List.subset_cons_self name fields
    refine h.bind (like_children h below sub expected) fun os os' _ hos => ?_
    rw [types_like h hos]
    refine like_seq h (h.bindName _ _) ?_
    have decl := ((like_untouched h n).withChildren (.cons (h.untouched name) hos)).adopt expected
    have entry := h.queueDecl (.queuedStruct name.text) (h.rebuilt decl) ⟨ht, rfl⟩
      ⟨n.renamed_relabel.tag.trans ht, congrArg some name.relabel_text⟩
    have both := like_seq h entry (like_return h decl)
    simpa only [bind_assoc] using both

theorem like_enumType : K.run K.node (enumType e.config v n expected)
    (enumType e'.config v' (n.relabel K.relabeling) expected) := by
  unfold enumType
  rw [Node.relabel_children]
  refine h.bind (like_children h below (List.Subset.refl _) expected) fun os os' _ hos => ?_
  refine h.bind h.enumName fun generated generated' _ same => ?_
  subst same
  have name : K.node ((Node.leaf .text generated).withContext "name")
      ((Node.leaf .text generated).withContext "name") :=
    node_made h (Node.relabel_labelled _ _ (by decide))
  have label := K.relabeling.label "data" (by decide)
  have elements : K.node { tag := .enumElement, children := os, context := some "data" }
      { tag := .enumElement, children := os', context := some "data" } :=
    h.rebuilt ⟨⟨rfl, rfl, rfl, label.symm, rfl, rfl, K.relabeling.dummy.symm⟩, hos⟩
  have define : K.node
      (Node.adopt { tag := .enumDefine,
                    children := [{ tag := .enumElement, children := os, context := some "data" },
                      (Node.leaf .text generated).withContext "name"],
                    span := n.span } expected)
      (Node.adopt { tag := .enumDefine,
                    children := [{ tag := .enumElement, children := os', context := some "data" },
                      (Node.leaf .text generated).withContext "name"],
                    span := (n.relabel K.relabeling).span } expected) :=
    h.rebuilt ⟨⟨rfl, rfl, rfl, K.relabeling.absent.symm, rfl, rfl, n.renamed_relabel.span⟩,
      .cons elements (.cons name .nil)⟩
  have entry := h.queueDecl (.queuedEnum generated) define ⟨rfl, rfl⟩ ⟨rfl, rfl⟩
  have both := like_seq h entry (like_return h
    (((like_untouched h n).withChildren (List.rel_append hos (.cons name .nil))).adopt expected))
  simpa only [bind_assoc] using both

/-- The value that comes back is read as a literal. -/
theorem like_assumeDecl (literal : ∀ c ∈ n.children, ∀ ex o o', (v c ex).Returns o → K.node o o' →
      K.LikeLiteral o o') :
    K.run K.node (assumeDecl v n expected) (assumeDecl v' (n.relabel K.relabeling) expected) := by
  unfold assumeDecl
  rw [Node.relabel_children]
  rcases hc : n.children with _ | ⟨name, _ | ⟨value, rest⟩⟩
  · exact like_lacking h 2
  · exact like_lacking h 2
  · simp only [List.map_cons]
    have sub : rest ⊆ n.children := fun m hm => by simp [hc, hm]
    refine h.bind (below name (by simp [hc]) expected) fun x x' _ hx => ?_
    refine h.bind (below value (by simp [hc]) expected) fun o o' returns ho => ?_
    refine h.bind (like_children h below sub expected) fun os os' _ hos => ?_
    have read := literal value (by simp [hc]) expected o o' returns ho
    rw [h.text hx, read.ty]
    refine like_emit h rfl rfl (like_seq h (h.bindName _ _) (like_return h ?_))
    exact ((like_untouched h n).withChildren (.cons hx (.cons read.node hos))).withType (some .void)

theorem like_unitChildren : K.run (List.Forall₂ K.node) (unitChildren v n.children)
    (unitChildren v' (n.relabel K.relabeling).children) := by
  unfold unitChildren
  rw [Node.relabel_children, List.getLast?_map]
  rcases hl : n.children.getLast? with _ | last
  · exact h.pure .nil
  · simp only [Option.map_some, last.renamed_relabel.tag, ← List.map_dropLast]
    split
    · refine h.bind (below last (List.mem_of_getLast? hl) _) fun o o' _ ho => ?_
      refine h.bind (like_children h below (List.dropLast_subset _) _) fun os os' _ hos => ?_
      exact h.pure (List.rel_append hos (.cons ho .nil))
    · exact like_children h below (List.Subset.refl _) _

theorem like_source (units : K.LawfulUnits) : K.run K.node (source v n expected)
    (source v' (n.relabel K.relabeling) expected) := by
  have entered : (n.relabel K.relabeling).children.length = n.children.length := by
    rw [Node.relabel_children, List.length_map]
  unfold source
  rw [entered]
  refine like_seq h units.reset (like_seq h (units.emit _) ?_)
  refine h.bind (like_unitChildren h below) fun os os' _ hos => ?_
  refine h.bind units.takeDecls fun ds ds' _ hds => ?_
  rw [← hds.length_eq]
  refine like_seq h (units.emit _) (like_return h ?_)
  have label := K.relabeling.label "user" (by decide)
  have hoisted : K.node (hoistedDecls ds) (hoistedDecls ds') :=
    h.rebuilt ⟨⟨rfl, rfl, rfl, label.symm, rfl, rfl, K.relabeling.dummy.symm⟩, hds⟩
  have children := List.rel_append hos (.cons hoisted .nil)
  exact ((like_untouched h n).withChildren children).adopt expected

end Children

/-! ## Functions -/

theorem rawBody_relabel (ρ : Relabeling) (next : Node) (more : List Node) :
    rawBody (next.relabel ρ) (more.map (Node.relabel ρ)) = (rawBody next more).relabel ρ := by
  unfold rawBody
  simp only [← List.map_cons]
  exact List.getLast_map _

theorem isParam_relabel (ρ : Relabeling) (c : Node) : isParam (c.relabel ρ) = isParam c := by
  unfold isParam
  rw [c.renamed_relabel.tag]

theorem params_relabel (ρ : Relabeling) (raw : Node) :
    params (raw.relabel ρ) = (params raw).map (Node.relabel ρ) := by
  unfold params
  rw [Node.relabel_children, List.filter_map, List.filterMap_map, List.map_filterMap]
  have slots : (isParam ∘ Node.relabel ρ) = isParam := funext (isParam_relabel ρ)
  rw [slots]
  refine List.filterMap_congr fun c _ => ?_
  simp only [Function.comp_apply, Node.relabel_children, List.head?_map]

theorem statements_relabel (ρ : Relabeling) (raw : Node) :
    statements (raw.relabel ρ) = (statements raw).map (Node.relabel ρ) := by
  unfold statements
  rw [Node.relabel_children, List.filter_map]
  congr 1
  refine List.filter_congr fun c _ => ?_
  simp only [Function.comp_apply, isParam_relabel]

section Function

include h

theorem like_paramBlock {raw : Node} (below : ∀ m ∈ params raw,
      K.run K.node (v m none) (v' (m.relabel K.relabeling) none)) :
    K.run K.node (paramBlock v raw) (paramBlock v' (raw.relabel K.relabeling)) := by
  unfold paramBlock
  rw [params_relabel]
  refine like_emit h rfl rfl (h.bind (like_visitAll h below) fun os os' _ hos => like_return h ?_)
  unfold sealParams
  rw [types_like h hos]
  have label := K.relabeling.label "param" (by decide)
  exact ⟨⟨rfl, rfl, rfl, label.symm, rfl, rfl, raw.renamed_relabel.span⟩, hos⟩

theorem like_bodyBlock {raw : Node} (below : ∀ m ∈ statements raw,
      K.run K.node (v m none) (v' (m.relabel K.relabeling) none)) {gs gs' : List Node}
    (hg : K.guards gs gs') :
    K.run K.LikeBody (bodyBlock v raw gs) (bodyBlock v' (raw.relabel K.relabeling) gs') := by
  obtain ⟨kinds, kinds'⟩ := h.guardKinds hg
  unfold bodyBlock
  rw [statements_relabel]
  refine like_emit h rfl rfl (like_seq h (h.passOver hg) ?_)
  refine h.bind (like_visitAll h below) fun os os' _ hos => h.pure ?_
  have label := K.relabeling.label "body" (by decide)
  have result : resultType (gs' ++ os') = resultType (gs ++ os) := by
    rw [resultType_guards kinds, resultType_guards kinds', resultType_like h hos]
  refine ⟨?_, congrArg some result, ?_, ?_⟩
  · have span : (raw.relabel K.relabeling).span = K.relabeling.span raw.span :=
      raw.renamed_relabel.span
    exact h.sealed rfl rfl ⟨rfl, rfl, congrArg some result, label.symm, rfl, rfl, span⟩ rfl rfl hg
      hos
  · rw [endsWithEvent_guards kinds' rfl, endsWithEvent_guards kinds rfl]
    rcases getLast?_like hos with ⟨ho, ho'⟩ | ⟨o, o', ho, ho', same⟩
    · rw [ho, ho']
    · rw [ho, ho', Option.any_some, Option.any_some, (h.renamed same).tag]
  · rw [isReadOnly_guards kinds' rfl, isReadOnly_guards kinds rfl]
    have same := congrArg (·.all (· != .recordStatement)) (tags_like h hos)
    simpa only [List.all_map, Function.comp_def] using same

/-- The name of a function is its own payload or the text of the name that comes back. -/
theorem functionText_like {name name' : Node} (hname : K.node name name')
    (middle middle' : List Node) :
    { n.relabel K.relabeling with children := name' :: middle' }.text =
      { n with children := name :: middle }.text := by
  have text : ∀ (m c : Node) (cs : List Node),
      { m with children := c :: cs }.text = m.payload.getD c.text :=
    fun _ _ _ => Node.text_of_children rfl
  rw [text, text, n.renamed_relabel.payload, h.text hname]

theorem markers_like {name name' body body' : Node} (hname : K.node name name')
    (hbody : K.LikeBody body body') (ty : Ty) :
    markers e'.config name' body' ty = markers e.config name body ty := by
  unfold markers
  rw [h.constructor hname, hbody.readOnly]

theorem markers_made (config : Config) (name body : Node) (ty : Ty) :
    List.Forall₂ K.node (markers config name body ty) (markers config name body ty) := by
  refine List.forall₂_same.mpr fun m hm => node_made h ?_
  have made : ∀ l ∈ ownLabels, m.children = [] → m.error = none → m.context = some l →
      m.span = .dummy → m.relabel K.relabeling = m := fun l hl hc he hm hs =>
    Node.relabel_made hc he (by rw [hm, K.relabeling.label l hl]) hs
  unfold markers at hm
  rcases List.mem_append.mp hm with hm | hm
  · split at hm
    · simp at hm
    · obtain rfl := List.mem_singleton.mp hm
      exact made "returns" (by decide) rfl rfl rfl rfl
  · split at hm
    · simp at hm
    · rcases List.mem_cons.mp hm with rfl | hm
      · exact made "nconst" (by decide) rfl rfl rfl rfl
      · split at hm
        · obtain rfl := List.mem_singleton.mp hm
          exact made "view" (by decide) rfl rfl rfl rfl
        · simp at hm

theorem like_concludeFunction (ht : n.tag = .functionDecl)
    {name name' param param' body body' : Node} (middle : List Node) (hname : K.node name name')
    (hparam : K.node param param') (hbody : K.LikeBody body body') :
    K.run K.node (concludeFunction e.config n expected name middle param body)
      (concludeFunction e'.config (n.relabel K.relabeling) expected name'
        (middle.map (Node.relabel K.relabeling)) param' body') := by
  have head : n.Renamed K.relabeling (n.relabel K.relabeling) := n.renamed_relabel
  unfold concludeFunction
  simp only [functionText_like h hname middle, hbody.ty, hbody.event]
  have types : paramTypes param' expected = paramTypes param expected := by
    unfold paramTypes
    rw [(h.renamed hparam).ty]
  rw [types]
  refine like_seq h (h.bindName _ _) ?_
  split
  · refine like_seq h (h.emitAll _ (by simp [Event.isEntry])) (like_return h ?_)
    exact ⟨⟨rfl, rfl, rfl, K.relabeling.absent.symm, rfl, rfl, head.span⟩,
      .cons hname (.cons hparam .nil)⟩
  · refine h.pure ?_
    have marks := markers_made h e.config name body (Ty.orVoid body.ty)
    have others := forall₂_untouched h middle
    refine h.function ht
      ⟨head.tag, head.payload, rfl, head.context, head.error, head.done, head.span⟩
      (functionOf_children _ _ _ _ _ _ _) ?_ hname others hparam hbody.body marks
    rw [functionOf_children, hbody.ty, markers_like h hname hbody]

/-- A function visits its name, the parameters in slots of its raw body, and the statements. -/
theorem like_functionDecl (ht : n.tag = .functionDecl) (below : ∀ m : Node, m.Inside n → ∀ ex,
      K.run K.node (v m ex) (v' (m.relabel K.relabeling) ex)) :
    K.run K.node (functionDecl e.config v n expected)
      (functionDecl e'.config v' (n.relabel K.relabeling) expected) := by
  unfold functionDecl
  rw [Node.relabel_children]
  rcases hc : n.children with _ | ⟨name, _ | ⟨next, more⟩⟩
  · exact like_lacking h 2
  · exact like_lacking h 2
  · have raw := rawBody_mem_children hc
    have param := like_paramBlock h fun m hm => below m (inside_of_mem_params raw hm) none
    simp only [List.map_cons, rawBody_relabel]
    rw [← List.map_cons, ← List.map_dropLast]
    refine h.bind (below name (Node.inside_of_child (by simp [hc])) expected) fun x x' _ hx => ?_
    refine h.bind param fun p p' _ hp => ?_
    refine h.bind h.takeGuards fun gs gs' _ hg => ?_
    rw [functionText_like h hx (next :: more).dropLast]
    refine like_seq h (h.announceGuards _ hg) ?_
    have body := like_bodyBlock h (fun m hm => below m (inside_of_mem_statements raw hm) none) hg
    exact h.bind body fun b b' _ hb => like_concludeFunction h ht _ hx hp hb

end Function

end Rules

/-! ## Visits -/

section Visits

variable {e e' : Engine} (h : K.Lawful e e')

theorem rule?_of_builtIn {t : Tag} {r : Rule} (hr : Engine.BuiltIn e.config t r) :
    e.rule? t = some r := by
  cases hr <;> rfl

/-- Which kinds have rules does not depend on the settings. -/
theorem exists_rule {config : Config} {t : Tag} {r : Rule} (hr : Engine.BuiltIn config t r)
    (e' : Engine) : ∃ r', e'.rule? t = some r' := by
  cases hr <;> exact ⟨_, rfl⟩

variable {H : Node → Prop}
  (literals : ∀ {n c o o' : Node} {ex : Option Ty}, H n → n.tag = .assumeDecl → c ∈ n.children →
    (e.visit c ex).Returns o → K.node o o' → K.LikeLiteral o o')
  (units : ∀ {n : Node}, H n → n.tag = .source → K.LawfulUnits)

include h literals units

/-- **One walk over the rules of two runs.** -/
theorem like_rule {n : Node} {t : Tag} {r r' : Rule} (ht : n.tag = t)
    (hr : Engine.BuiltIn e.config t r) (hr' : e'.rule? t = some r') (hn : H n)
    (below : ∀ m : Node, m.Inside n → ∀ ex,
      K.run K.node (e.visit m ex) (e'.visit (m.relabel K.relabeling) ex)) (expected : Option Ty) :
    K.run K.node (r e.visit n expected) (r' e'.visit (n.relabel K.relabeling) expected) := by
  have children := fun c hc => below c (Node.inside_of_child hc)
  cases hr with
  | source => exact Option.some.inj hr' ▸ like_source h children (units hn ht)
  | block => exact Option.some.inj hr' ▸ like_block h children
  | title | eventDecl => exact Option.some.inj hr' ▸ like_adopt h n expected
  | importList => exact Option.some.inj hr' ▸ like_importList h children
  | importDecl => exact Option.some.inj hr' ▸ like_importDecl h
  | variableDecl => exact Option.some.inj hr' ▸ like_variableDecl h children
  | vPair | pair => exact Option.some.inj hr' ▸ like_pair h
  | functionDecl => exact Option.some.inj hr' ▸ like_functionDecl h ht below
  | functionName => exact Option.some.inj hr' ▸ like_functionName h
  | fdParam => exact Option.some.inj hr' ▸ like_fdParam h children
  | fdPair => exact Option.some.inj hr' ▸ like_fdPair h
  | fdBody => exact Option.some.inj hr' ▸ like_fdBody h children
  | assign => exact Option.some.inj hr' ▸ like_assign h children
  | returnStatement => exact Option.some.inj hr' ▸ like_returnStatement h children
  | recordStatement => exact Option.some.inj hr' ▸ like_recordStatement h children
  | completeStatement | intExpr =>
    exact Option.some.inj hr' ▸ like_return h ((like_untouched h n).withType _)
  | map1 | map2 => exact Option.some.inj hr' ▸ like_mapping h children _
  | raw => exact Option.some.inj hr' ▸ like_raw h
  | structDefine => exact Option.some.inj hr' ▸ like_structDefine h children ht
  | enumType => exact Option.some.inj hr' ▸ like_enumType h children
  | wordDefine | assumeDecls => exact Option.some.inj hr' ▸ like_finishing h children
  | assumeDecl =>
    exact Option.some.inj hr' ▸ like_assumeDecl h children fun c hc ex o o' => literals hn ht hc

/-- A lawful comparison holds of the visits of a tree and of the relabelled tree. -/
theorem like_visit (he : e.rules = []) (inside : ∀ {n m : Node}, H n → m.Inside n → H m) (n : Node)
    (expected : Option Ty) (hn : H n) :
    K.run K.node (e.visit n expected) (e'.visit (n.relabel K.relabeling) expected) := by
  refine e.visit_induction he (Q := fun m ex _ => H m →
    K.run K.node (e.visit m ex) (e'.visit (m.relabel K.relabeling) ex)) ?_ ?_ n expected hn
  · intro n expected idle _
    exact h.idle expected (h.untouched n) n.renamed_relabel.tag idle
  · intro n t r ht hr below expected hn
    obtain ⟨r', hr'⟩ := exists_rule hr e'
    subst ht
    refine h.visit n.renamed_relabel.tag (rule?_of_builtIn hr) hr' ?_
    exact like_rule h literals units rfl hr hr' hn
      (fun m hm ex => below m hm ex (inside hn hm)) expected

end Visits

end Comparison

end ContractTyping
