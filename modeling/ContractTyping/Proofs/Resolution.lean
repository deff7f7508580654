import ContractTyping.Proofs.Marks

/-!
Which nodes of a finished tree the pass has processed, and that each of them is resolved: typed,
failed or finished. A place of the finished tree is followed together with what stood there before,
since a declaration of an event is processed only where it came from a function. Main statement:
`Engine.settled_visit`, every processed place of what a visit hands back is resolved.
-/

namespace ContractTyping

/-! ## Processed places -/

/-- Each node with the one that stood in its place before; nodes beyond those are new. -/
def paired : List Node → List Node → List (Option Node × Node)
  | _, [] => []
  | [], c :: cs => (none, c) :: paired [] cs
  | b :: bs, c :: cs => (some b, c) :: paired bs cs

/-- The same from the end, for bodies: guards stand in front of the statements. -/
def pairedFromEnd (before after : List Node) : List (Option Node × Node) :=
  (paired before.reverse after.reverse).reverse

/-- The block of parameters made from a raw body. -/
def paramsOf (raw : Node) : Node := { tag := .fdParam, children := Rule.params raw }

/-- The body made from a raw body, before guards are put in front. -/
def bodyOf (raw : Node) : Node := { tag := .fdBody, children := Rule.statements raw }

/-- The child at a position, with what stood there before. -/
def pairedAt (before : Node) (out : Node) (index : Nat) : List (Option Node × Node) :=
  (out.children[index]?).toList.map (some before, ·)

/-- What a function declaration handed on: its name, and the blocks made from the raw body, which
follow the children that stood between. -/
def handedByFunction (given out : Node) : List (Option Node × Node) :=
  match given.children with
  | name :: next :: more =>
    pairedAt name out 0
    ++ pairedAt (paramsOf (Rule.rawBody next more)) out (more.length + 1)
    ++ pairedAt (bodyOf (Rule.rawBody next more)) out (more.length + 2)
  | _ => []

/-- What a function declaration that became an event handed on: both children of the event. -/
def handedByEvent (given out : Node) : List (Option Node × Node) :=
  match given.tag, given.children with
  | .functionDecl, name :: next :: more =>
    paired [name, paramsOf (Rule.rawBody next more)] out.children
  | _, _ => []

/-- The children of a finished node that its rule handed to the pass, each with what stood in its
place before. -/
def handed (given : Option Node) (out : Node) : List (Option Node × Node) :=
  let children := paired (given.elim [] (·.children)) out.children
  match out.tag with
  | .source | .block | .importList | .variableDecl | .fdParam | .wordDefine | .assumeDecls
  | .assumeDecl | .enumType => children
  | .fdBody => pairedFromEnd (given.elim [] (·.children)) out.children
  | .structDefine => children.tail
  | .returnStatement | .recordStatement => children.take 1
  | .assign | .map1 => children.take 2
  | .map2 => children.take 3
  | .functionDecl => given.elim [] (handedByFunction · out)
  | .eventDecl => given.elim [] (handedByEvent · out)
  | _ => []

/-- The processed places of a finished tree: the root, and below a processed node without a
diagnostic the children that its rule handed on. -/
inductive Processed (tree out : Node) : Option Node → Node → Prop
  | root : Processed tree out (some tree) out
  | child {given : Option Node} {m : Node} {p : Option Node × Node} :
      Processed tree out given m → m.error = none → p ∈ handed given m → Processed tree out p.1 p.2

/-- Every place processed from here on is resolved, with one mark. -/
inductive Settled (e : Engine) : Option Node → Node → Prop
  | mk {given : Option Node} {out : Node}
      (marked : (e.rule? out.tag).isSome = true → out.tag ≠ .raw → out.marks = 1)
      (below : out.error = none → ∀ p ∈ handed given out, Settled e p.1 p.2) :
      Settled e given out

theorem Processed.settled {e : Engine} {tree out m : Node} {given : Option Node}
    (h : Processed tree out given m) (hs : Settled e (some tree) out) : Settled e given m := by
  induction h with
  | root => exact hs
  | child _ herr hp ih =>
    obtain ⟨_, below⟩ := ih
    exact below herr _ hp

theorem Settled.marks_eq {e : Engine} {given : Option Node} {m : Node} (h : Settled e given m)
    (hr : (e.rule? m.tag).isSome = true) (hraw : m.tag ≠ .raw) : m.marks = 1 := by
  obtain ⟨marked, _⟩ := h
  exact marked hr hraw

/-! ## Pairing -/

theorem paired_map (f : Node → Node) (bs cs : List Node) :
    paired bs (cs.map f) = (paired bs cs).map (Prod.map id f) := by
  induction cs generalizing bs with
  | nil => cases bs <;> rfl
  | cons c cs ih => cases bs <;> simp [paired, ih]

theorem pairedFromEnd_map (f : Node → Node) (bs cs : List Node) :
    pairedFromEnd bs (cs.map f) = (pairedFromEnd bs cs).map (Prod.map id f) := by
  simp [pairedFromEnd, ← List.map_reverse, paired_map]

theorem pairedAt_map {f : Node → Node} {m k : Node} (h : k.children = m.children.map f)
    (before : Node) (index : Nat) :
    pairedAt before k index = (pairedAt before m index).map (Prod.map id f) := by
  simp only [pairedAt, h, List.getElem?_map]
  cases m.children[index]? <;> rfl

theorem paired_append {bs cs : List Node} (h : bs.length = cs.length) (bs' cs' : List Node) :
    paired (bs ++ bs') (cs ++ cs') = paired bs cs ++ paired bs' cs' := by
  induction bs generalizing cs with
  | nil => cases List.length_eq_zero_iff.mp h.symm; simp [paired]
  | cons b bs ih =>
    cases cs with
    | nil => simp at h
    | cons c cs => simp [paired, ih (by simpa using h)]

theorem length_paired (bs cs : List Node) : (paired bs cs).length = cs.length := by
  induction cs generalizing bs with
  | nil => cases bs <;> rfl
  | cons c cs ih => cases bs <;> simp [paired, ih]

theorem handedByFunction_functionOf {config : Config} {n name next name' param body : Node}
    {more : List Node} {expected : Option Ty} (hc : n.children = name :: next :: more) :
    handedByFunction n
        (Rule.functionOf config n expected name' (next :: more).dropLast param body) =
      [(some name, name'), (some (paramsOf (Rule.rawBody next more)), param),
        (some (bodyOf (Rule.rawBody next more)), body)] := by
  have hlen : (next :: more).dropLast.length = more.length := by simp
  have hparam := Rule.functionOf_param config n expected name' (next :: more).dropLast param body
  have hbody := Rule.functionOf_body config n expected name' (next :: more).dropLast param body
  rw [hlen] at hparam hbody
  simp only [handedByFunction, hc, pairedAt, hparam, hbody]
  simp [Rule.functionOf_children]

/-- New nodes have nothing in their place before. -/
theorem paired_nil (cs : List Node) : paired [] cs = cs.map (none, ·) := by
  induction cs with
  | nil => rfl
  | cons c cs ih => simp [paired, ih]

theorem mem_paired_of_forall₂ {R : Node → Node → Prop} {bs cs : List Node}
    (h : List.Forall₂ R bs cs) {p : Option Node × Node} (hp : p ∈ paired bs cs) :
    ∃ b, p.1 = some b ∧ R b p.2 := by
  induction h with
  | nil => simp [paired] at hp
  | cons hbc _ ih =>
    rcases List.mem_cons.mp hp with rfl | hp
    · exact ⟨_, rfl, hbc⟩
    · exact ih hp

/-! ## Fixing widths -/

theorem handed_normalizeValue (given : Option Node) (m : Node) :
    handed given m.normalizeValue = (handed given m).map (Prod.map id Node.normalizeValue) := by
  have function (g : Node) : handedByFunction g m.normalizeValue =
      (handedByFunction g m).map (Prod.map id Node.normalizeValue) := by
    unfold handedByFunction
    split
    · simp [pairedAt_map m.normalizeValue_children]
    · rfl
  have event (g : Node) : handedByEvent g m.normalizeValue =
      (handedByEvent g m).map (Prod.map id Node.normalizeValue) := by
    unfold handedByEvent
    split
    · rw [m.normalizeValue_children, paired_map]
    · rfl
  unfold handed
  rw [m.normalizeValue_tag, m.normalizeValue_children, paired_map, pairedFromEnd_map]
  cases given <;> cases m.tag <;> simp [function, event, List.map_tail, List.map_take]

/-- Fixing widths unsettles nothing. -/
theorem Settled.normalizeValue {e : Engine} {given : Option Node} {m : Node}
    (h : Settled e given m) : Settled e given m.normalizeValue := by
  induction h with
  | @mk given out marked _ ih =>
    refine .mk ?_ ?_
    · rw [out.normalizeValue_tag, out.normalizeValue_marks]
      exact marked
    · rw [out.normalizeValue_error, handed_normalizeValue]
      rintro herr p hp
      obtain ⟨q, hq, rfl⟩ := List.mem_map.mp hp
      exact ih herr q hq

/-! ## What one rule settles -/

/-- A node whose kind has no rule hands on nothing. -/
theorem handed_of_idle {e : Engine} {m : Node} (h : e.rule? m.tag = none) (given : Option Node) :
    handed given m = [] := by
  unfold handed
  cases ht : m.tag <;> simp_all [Engine.rule?]

theorem settled_of_idle {e : Engine} {m : Node} (h : e.rule? m.tag = none) (given : Option Node) :
    Settled e given m := by
  refine .mk (fun hr => ?_) fun _ p hp => ?_
  · simp [h] at hr
  · rw [handed_of_idle h] at hp
    exact absurd hp List.not_mem_nil

/-- A failed node is resolved, whatever stands below. -/
theorem settled_of_error {e : Engine} {m : Node} (hm : m.marks = 1) (he : m.error.isSome = true)
    (given : Option Node) : Settled e given m := by
  refine .mk (fun _ _ => hm) fun herr => ?_
  simp [herr] at he

theorem settled_of_handed_nil {e : Engine} {given : Option Node} {m : Node} (hm : m.marks = 1)
    (h : handed given m = []) : Settled e given m := by
  refine .mk (fun _ _ => hm) fun _ p hp => ?_
  rw [h] at hp
  exact absurd hp List.not_mem_nil

/-- Visited nodes are settled where they stood, and new nodes need no rule. -/
theorem settled_paired {e : Engine} {ms cs extra : List Node}
    (h : List.Forall₂ (fun m c => Settled e (some m) c) ms cs)
    (hx : ∀ x ∈ extra, e.rule? x.tag = none) :
    ∀ p ∈ paired ms (cs ++ extra), Settled e p.1 p.2 := by
  intro p hp
  have split : paired ms (cs ++ extra) = paired ms cs ++ extra.map (none, ·) := by
    simpa [paired_nil] using paired_append h.length_eq [] extra
  rw [split] at hp
  rcases List.mem_append.mp hp with hp | hp
  · obtain ⟨b, hb, hs⟩ := mem_paired_of_forall₂ h hp
    rw [hb]
    exact hs
  · obtain ⟨x, hmem, rfl⟩ := List.mem_map.mp hp
    exact settled_of_idle (hx x hmem) none

namespace Rule

open Pass

variable {e : Engine} {visit : Visitor} {n out : Node} {expected : Option Ty}

theorem settled_resolving {name : String} {found : Ty → Pass Node} (hn : n.Blank)
    (h : (resolving n name found).Returns out)
    (hf : ∀ ty, (found ty).Returns out → Settled e (some n) out) : Settled e (some n) out := by
  obtain ⟨ty, _, h⟩ := h.of_bind
  cases ty with
  | some ty => exact hf ty h
  | none =>
    obtain ⟨_, _, h⟩ := h.of_bind
    cases returns_pure_iff.mp h
    exact settled_of_error (hn.marks_fail _) rfl _

theorem settled_lacking (hn : n.Blank) (count : UInt64) : Settled e (some n) (n.lacking count) :=
  settled_of_error (hn.marks_fail _) rfl _

theorem settled_adopt (hn : n.Blank) (h : handed (some n) (n.adopt expected) = []) :
    Settled e (some n) (n.adopt expected) :=
  settled_of_handed_nil (hn.marks_typed rfl rfl rfl) h

theorem settled_pair (ht : n.tag = .pair ∨ n.tag = .vPair) (hn : n.Blank)
    (h : (pair visit n expected).Returns out) : Settled e (some n) out := by
  unfold pair at h
  split at h
  · refine settled_resolving hn h fun ty h => ?_
    cases returns_pure_iff.mp h
    refine settled_of_handed_nil (hn.marks_typed rfl rfl rfl) ?_
    rcases ht with ht | ht <;> simp [handed, ht]
  · cases returns_pure_iff.mp h
    exact settled_lacking hn 2

theorem settled_fdPair {config : Config} (ht : n.tag = .fdPair) (hn : n.Blank)
    (h : (fdPair config visit n expected).Returns out) : Settled e (some n) out := by
  unfold fdPair at h
  split at h
  · cases returns_pure_iff.mp h
    exact settled_lacking hn 1
  · refine settled_resolving hn h fun ty h => ?_
    obtain ⟨_, _, h⟩ := h.of_bind
    cases returns_pure_iff.mp h
    refine settled_of_handed_nil (hn.marks_typed rfl rfl rfl) ?_
    simp [handed, ht]

theorem settled_importDecl (ht : n.tag = .importDecl) (hn : n.Blank)
    (h : (importDecl visit n expected).Returns out) : Settled e (some n) out := by
  unfold importDecl at h
  split at h
  · split at h
    · obtain ⟨_, _, h⟩ := h.of_bind
      obtain ⟨_, _, h⟩ := h.of_bind
      cases returns_pure_iff.mp h
      exact settled_adopt hn (by simp [handed, Node.adopt, Node.withType, ht])
    · cases returns_pure_iff.mp h
      exact settled_of_error (hn.marks_fail _) rfl _
  · cases returns_pure_iff.mp h
    exact settled_lacking hn 3

theorem settled_functionName (ht : n.tag = .functionName) (hn : n.Blank)
    (h : (functionName visit n expected).Returns out) : Settled e (some n) out := by
  have adopted : Settled e (some n) (n.adopt expected) :=
    settled_adopt hn (by simp [handed, Node.adopt, Node.withType, ht])
  unfold functionName at h
  split at h
  · obtain ⟨_, _, h⟩ := h.of_bind
    cases returns_pure_iff.mp h
    exact adopted
  · cases returns_pure_iff.mp h
    exact adopted

theorem settled_raw (ht : n.tag = .raw) (h : (raw visit n expected).Returns out) :
    Settled e (some n) out := by
  have tag : out.tag = .raw := by
    obtain ⟨ty, _, h⟩ := h.of_bind
    cases ty with
    | some ty => cases returns_pure_iff.mp h; exact ht
    | none =>
      obtain ⟨_, _, h⟩ := h.of_bind
      cases returns_pure_iff.mp h
      exact ht
  refine .mk (fun _ hraw => absurd tag hraw) fun _ p hp => ?_
  simp [handed, tag] at hp

/-- Guards in front of a body need no rule. -/
theorem settled_body {guards cs : List Node} (hm : out.marks = 1) (ht : out.tag = .fdBody)
    (hc : out.children = guards ++ cs) {ms : List Node} {given : Node} (hg : given.children = ms)
    (hguards : ∀ g ∈ guards, e.rule? g.tag = none)
    (h : List.Forall₂ (fun m c => Settled e (some m) c) ms cs) : Settled e (some given) out := by
  refine .mk (fun _ _ => hm) fun _ p hp => ?_
  simp only [handed, ht, Option.elim, hc, hg, pairedFromEnd, List.reverse_append,
    List.mem_reverse] at hp
  refine settled_paired ?_ ?_ p hp
  · exact List.forall₂_reverse_iff.mpr h
  · exact fun g hmem => hguards g (List.mem_reverse.mp hmem)

/-! ## Rules that visit nodes below -/

section Below

variable (below : ∀ m : Node, m.Inside n → ∀ expected c, (visit m expected).Returns c →
  Settled e (some m) c)

include below

theorem settled_each {ms cs : List Node} (hm : ∀ m ∈ ms, m.Inside n) {expected : Option Ty}
    (h : List.Forall₂ (fun m c => (visit m expected).Returns c) ms cs) :
    List.Forall₂ (fun m c => Settled e (some m) c) ms cs := by
  induction h with
  | nil => exact .nil
  | cons hc _ ih =>
    refine .cons (below _ (hm _ List.mem_cons_self) _ _ hc) (ih fun m h => ?_)
    exact hm m (List.mem_cons_of_mem _ h)

theorem settled_children {ms cs : List Node} (hm : ms ⊆ n.children) {expected : Option Ty}
    (h : (visitAll visit ms expected).Returns cs) :
    List.Forall₂ (fun m c => Settled e (some m) c) ms cs :=
  settled_each below (fun _ hk => Node.inside_of_child (hm hk)) (visitAll_returns h)

/-- A node all of whose children are visited, with new children after them. -/
theorem settled_all {cs extra : List Node} (hm : out.marks = 1)
    (hc : out.children = cs ++ extra) (hh : handed (some n) out = paired n.children out.children)
    (h : (visitAll visit n.children expected).Returns cs)
    (hx : ∀ x ∈ extra, e.rule? x.tag = none) : Settled e (some n) out := by
  refine .mk (fun _ _ => hm) fun _ => ?_
  rw [hh, hc]
  exact settled_paired (settled_children below (List.Subset.refl _) h) hx

theorem settled_block (hn : n.Blank) (ht : n.tag = .block ∨ n.tag = .importList)
    (h : (block visit n expected).Returns out) : Settled e (some n) out := by
  obtain ⟨cs, hcs, h⟩ := h.of_bind
  cases returns_pure_iff.mp h
  refine settled_all below (hn.marks_typed rfl rfl rfl) (List.append_nil cs).symm ?_ hcs (by simp)
  rcases ht with ht | ht <;> simp [handed, Node.adopt, Node.withType, ht]

theorem settled_importList (hn : n.Blank) (ht : n.tag = .importList)
    (h : (importList visit n expected).Returns out) : Settled e (some n) out := by
  unfold importList at h
  split at h
  · rename_i hc _
    cases returns_pure_iff.mp h
    refine .mk (fun _ _ => hn.marks_typed rfl rfl rfl) fun _ p hp => ?_
    simp only [handed, Node.adopt, Node.withType, ht, Option.elim, hc, paired,
      List.mem_singleton] at hp
    rw [hp]
    exact settled_of_idle rfl none
  · exact settled_block below hn (.inr ht) h

theorem settled_variableDecl (hn : n.Blank) (ht : n.tag = .variableDecl)
    (h : (variableDecl visit n expected).Returns out) : Settled e (some n) out := by
  obtain ⟨cs, hcs, h⟩ := h.of_bind
  obtain ⟨imports, _, h⟩ := h.of_bind
  cases returns_pure_iff.mp h
  refine settled_all below (hn.marks_typed rfl rfl rfl) rfl ?_ hcs ?_
  · simp [handed, Node.adopt, Node.withType, ht]
  · exact List.forall_mem_map.mpr fun _ _ => rfl

theorem settled_fdParam (hn : n.Blank) (ht : n.tag = .fdParam)
    (h : (fdParam visit n expected).Returns out) : Settled e (some n) out := by
  obtain ⟨cs, hcs, h⟩ := h.of_bind
  cases returns_pure_iff.mp h
  refine settled_all below (hn.marks_typed rfl rfl rfl) (List.append_nil cs).symm ?_ hcs (by simp)
  simp [handed, sealParams, ht]

theorem settled_finishing (hn : n.Blank) (ht : n.tag = .wordDefine ∨ n.tag = .assumeDecls)
    (h : (finishing visit n expected).Returns out) : Settled e (some n) out := by
  obtain ⟨cs, hcs, h⟩ := h.of_bind
  cases returns_pure_iff.mp h
  refine settled_all below (hn.marks_finish cs) (List.append_nil cs).symm ?_ hcs (by simp)
  rcases ht with ht | ht <;> simp [handed, Node.finish, ht]

theorem settled_enumType {config : Config} (hn : n.Blank) (ht : n.tag = .enumType)
    (h : (enumType config visit n expected).Returns out) : Settled e (some n) out := by
  obtain ⟨cs, hcs, h⟩ := h.of_bind
  obtain ⟨generated, _, h⟩ := h.of_bind
  obtain ⟨_, _, h⟩ := h.of_bind
  obtain ⟨_, _, h⟩ := h.of_bind
  cases returns_pure_iff.mp h
  refine settled_all below (hn.marks_typed rfl rfl rfl) rfl ?_ hcs ?_
  · simp [handed, Node.adopt, Node.withType, ht]
  · exact List.forall_mem_singleton.mpr rfl

theorem settled_fdBody (hn : n.Blank) (ht : n.tag = .fdBody)
    (h : (fdBody visit n expected).Returns out) : Settled e (some n) out := by
  obtain ⟨cs, hcs, h⟩ := h.of_bind
  cases returns_pure_iff.mp h
  have statements := settled_children below (List.Subset.refl _) hcs
  have marks : (sealBody n cs).marks = 1 := hn.marks_typed rfl rfl rfl
  exact settled_body marks ht (List.nil_append cs).symm rfl (by simp) statements

theorem settled_source (hn : n.Blank) (ht : n.tag = .source)
    (h : (source visit n expected).Returns out) : Settled e (some n) out := by
  obtain ⟨_, _, h⟩ := h.of_bind
  obtain ⟨_, _, h⟩ := h.of_bind
  obtain ⟨cs, hcs, h⟩ := h.of_bind
  obtain ⟨decls, _, h⟩ := h.of_bind
  obtain ⟨_, _, h⟩ := h.of_bind
  cases returns_pure_iff.mp h
  refine .mk (fun _ _ => hn.marks_typed rfl rfl rfl) fun _ => ?_
  simp only [handed, Node.adopt, Node.withType, ht, Option.elim]
  refine settled_paired ?_ (List.forall_mem_singleton.mpr rfl)
  exact settled_each below (fun _ hm => Node.inside_of_child hm) (unitChildren_returns hcs)

theorem settled_assign (hn : n.Blank) (ht : n.tag = .assign)
    (h : (assign visit n expected).Returns out) : Settled e (some n) out := by
  unfold assign at h
  split at h
  · rename_i target value rest hc
    obtain ⟨target', htarget, h⟩ := h.of_bind
    obtain ⟨value', hvalue, h⟩ := h.of_bind
    cases returns_pure_iff.mp h
    have first := below target (Node.inside_of_child (by simp [hc])) _ _ htarget
    have second := below value (Node.inside_of_child (by simp [hc])) _ _ hvalue
    refine .mk (fun _ _ => hn.marks_typed rfl rfl rfl) fun _ p hp => ?_
    simp only [handed, ht, Option.elim, hc, paired, List.take_succ_cons, List.take_zero,
      List.mem_cons, List.not_mem_nil, or_false] at hp
    rcases hp with rfl | rfl
    · exact first
    · exact second
  · cases returns_pure_iff.mp h
    exact settled_lacking hn 2

theorem settled_returnStatement (hn : n.Blank) (ht : n.tag = .returnStatement)
    (h : (returnStatement visit n expected).Returns out) : Settled e (some n) out := by
  unfold returnStatement at h
  split at h
  · rename_i operand rest hc
    obtain ⟨operand', hoperand, h⟩ := h.of_bind
    have first := below operand (Node.inside_of_child (by simp [hc])) _ _ hoperand
    have typed (ty : Ty) : Settled e (some n)
        (Node.withType { n with children := operand' :: rest } (some ty)) := by
      refine .mk (fun _ _ => hn.marks_typed rfl rfl rfl) fun _ p hp => ?_
      simp only [handed, Node.withType, ht, Option.elim, hc, paired, List.take_succ_cons,
        List.take_zero, List.mem_singleton] at hp
      rw [hp]
      exact first
    dsimp only at h
    split at h
    · cases returns_pure_iff.mp h
      exact typed _
    · obtain ⟨ty, _, h⟩ := h.of_bind
      cases ty with
      | some ty =>
        cases returns_pure_iff.mp h
        exact typed ty
      | none =>
        obtain ⟨_, _, h⟩ := h.of_bind
        cases returns_pure_iff.mp h
        have blank : Node.Blank { n with children := operand' :: rest } := hn
        exact settled_of_error (blank.marks_fail _) rfl _
    · cases returns_pure_iff.mp h
      exact typed _
  · cases returns_pure_iff.mp h
    exact settled_lacking hn 1

theorem settled_recordStatement (hn : n.Blank) (ht : n.tag = .recordStatement)
    (h : (recordStatement visit n expected).Returns out) : Settled e (some n) out := by
  unfold recordStatement at h
  split at h
  · rename_i target event rest hc
    obtain ⟨target', htarget, h⟩ := h.of_bind
    obtain ⟨display, _, h⟩ := h.of_bind
    cases returns_pure_iff.mp h
    refine .mk (fun _ _ => hn.marks_typed rfl rfl rfl) fun _ p hp => ?_
    simp only [handed, ht, Option.elim, hc, List.cons_append, paired, List.take_succ_cons,
      List.take_zero, List.mem_singleton] at hp
    rw [hp]
    exact below target (Node.inside_of_child (by simp [hc])) _ _ htarget
  · cases returns_pure_iff.mp h
    exact settled_lacking hn 2

theorem settled_mapping {arity : Nat} (hn : n.Blank)
    (ht : n.tag = .map1 ∧ arity = 1 ∨ n.tag = .map2 ∧ arity = 2)
    (h : (mapping arity visit n expected).Returns out) : Settled e (some n) out := by
  unfold mapping at h
  split at h
  · cases returns_pure_iff.mp h
    exact settled_of_error (hn.marks_fail _) rfl _
  · rename_i operand rest hd
    obtain ⟨operand', hoperand, h⟩ := h.of_bind
    split at h
    · obtain ⟨indices, hindices, h⟩ := h.of_bind
      cases returns_pure_iff.mp h
      refine .mk (fun _ _ => hn.marks_typed rfl rfl rfl) fun _ p hp => ?_
      have hmem : operand ∈ n.children := List.mem_of_mem_drop (hd ▸ List.mem_cons_self)
      have front := settled_children below (List.take_subset arity _) hindices
      have back := below operand (Node.inside_of_child hmem) _ _ hoperand
      have whole : n.children = n.children.take arity ++ operand :: rest := by
        rw [← hd, List.take_append_drop]
      have hlen : (paired (n.children.take arity) indices).length = arity := by
        have hle : arity < n.children.length := by
          rw [← List.drop_eq_nil_iff.not.trans Nat.not_le, hd]
          exact List.cons_ne_nil _ _
        rw [length_paired, ← front.length_eq, List.length_take]
        omega
      have pairs : paired n.children (indices ++ operand' :: rest) =
          paired (n.children.take arity) indices ++
            paired (operand :: rest) (operand' :: rest) := by
        conv_lhs => rw [whole]
        exact paired_append front.length_eq _ _
      have places (ty : Ty) : handed (some n)
          { n with children := indices ++ operand' :: rest, ty := some ty } =
          (paired n.children (indices ++ operand' :: rest)).take (arity + 1) := by
        rcases ht with ⟨ht, rfl⟩ | ⟨ht, rfl⟩ <;> simp [handed, ht]
      rw [places, pairs, List.take_append, hlen] at hp
      rcases List.mem_append.mp hp with hp | hp
      · obtain ⟨b, hb, hs⟩ := mem_paired_of_forall₂ front (List.mem_of_mem_take hp)
        rw [hb]
        exact hs
      · simp only [paired, Nat.add_sub_cancel_left, List.take_succ_cons, List.take_zero,
          List.mem_singleton] at hp
        rw [hp]
        exact back
    · cases returns_pure_iff.mp h
      have blank (children : List Node) : Node.Blank { n with children } := hn
      exact settled_of_error ((blank _).marks_fail _) rfl _

theorem settled_structDefine (hn : n.Blank) (ht : n.tag = .structDefine)
    (h : (structDefine visit n expected).Returns out) : Settled e (some n) out := by
  unfold structDefine at h
  split at h
  · rename_i name fields hc
    obtain ⟨fields', hfields, h⟩ := h.of_bind
    obtain ⟨_, _, h⟩ := h.of_bind
    obtain ⟨_, _, h⟩ := h.of_bind
    obtain ⟨_, _, h⟩ := h.of_bind
    cases returns_pure_iff.mp h
    have settled := settled_children below (fun c hm => by simp [hc, hm]) hfields
    refine .mk (fun _ _ => hn.marks_typed rfl rfl rfl) fun _ p hp => ?_
    simp only [handed, Node.adopt, Node.withType, ht, Option.elim, hc, paired,
      List.tail_cons] at hp
    obtain ⟨b, hb, hs⟩ := mem_paired_of_forall₂ settled hp
    rw [hb]
    exact hs
  · cases returns_pure_iff.mp h
    exact settled_lacking hn 1

theorem settled_assumeDecl (hn : n.Blank) (ht : n.tag = .assumeDecl)
    (h : (assumeDecl visit n expected).Returns out) : Settled e (some n) out := by
  unfold assumeDecl at h
  split at h
  · rename_i name value rest hc
    obtain ⟨name', hname, h⟩ := h.of_bind
    obtain ⟨value', hvalue, h⟩ := h.of_bind
    obtain ⟨rest', hrest, h⟩ := h.of_bind
    obtain ⟨_, _, h⟩ := h.of_bind
    obtain ⟨_, _, h⟩ := h.of_bind
    cases returns_pure_iff.mp h
    have first := below name (Node.inside_of_child (by simp [hc])) _ _ hname
    have second := below value (Node.inside_of_child (by simp [hc])) _ _ hvalue
    have others := settled_children below (fun c hm => by simp [hc, hm]) hrest
    refine .mk (fun _ _ => hn.marks_typed rfl rfl rfl) fun _ p hp => ?_
    simp only [handed, ht, Option.elim, hc, paired, List.mem_cons] at hp
    rcases hp with rfl | rfl | hp
    · exact first
    · exact second.normalizeValue
    · obtain ⟨b, hb, hs⟩ := mem_paired_of_forall₂ others hp
      rw [hb]
      exact hs
  · cases returns_pure_iff.mp h
    exact settled_lacking hn 2

/-! ## Function declarations -/

theorem settled_paramBlock {raw param : Node} (hr : raw ∈ n.children)
    (h : (paramBlock visit raw).Returns param) : Settled e (some (paramsOf raw)) param := by
  obtain ⟨_, _, h⟩ := h.of_bind
  obtain ⟨cs, hcs, h⟩ := h.of_bind
  cases returns_pure_iff.mp h
  have params := settled_each below (fun m hm => inside_of_mem_params hr hm) (visitAll_returns hcs)
  refine .mk (fun _ _ => rfl) fun _ p hp => ?_
  obtain ⟨b, hb, hs⟩ := mem_paired_of_forall₂ params hp
  rw [hb]
  exact hs

theorem settled_bodyBlock {raw body : Node} {guards : List Node} (hr : raw ∈ n.children)
    (hg : ∀ g ∈ guards, e.rule? g.tag = none)
    (h : (bodyBlock visit raw guards).Returns body) : Settled e (some (bodyOf raw)) body := by
  obtain ⟨_, _, h⟩ := h.of_bind
  obtain ⟨_, _, h⟩ := h.of_bind
  obtain ⟨cs, hcs, h⟩ := h.of_bind
  cases returns_pure_iff.mp h
  have returned := visitAll_returns hcs
  have statements := settled_each below (fun m hm => inside_of_mem_statements hr hm) returned
  exact settled_body rfl rfl rfl rfl hg statements

theorem settled_functionDecl {config : Config} (hn : n.Blank) (ht : n.tag = .functionDecl)
    (h : (functionDecl config visit n expected).Returns out) : Settled e (some n) out := by
  unfold functionDecl at h
  split at h
  · rename_i name next more hc
    have hraw := rawBody_mem_children hc
    obtain ⟨name', hname, h⟩ := h.of_bind
    obtain ⟨param, hparam, h⟩ := h.of_bind
    obtain ⟨guards, hguards, h⟩ := h.of_bind
    obtain ⟨_, _, h⟩ := h.of_bind
    obtain ⟨body, hbody, h⟩ := h.of_bind
    have requires : ∀ g ∈ guards, e.rule? g.tag = none := by
      obtain ⟨env, rfl⟩ := hguards
      exact List.forall_mem_map.mpr fun _ _ => rfl
    have first := below name (Node.inside_of_child (by simp [hc])) _ _ hname
    have second := settled_paramBlock below hraw hparam
    have third := settled_bodyBlock below hraw requires hbody
    rcases concludeFunction_returns config n expected name' _ param body h with
      ⟨_, rfl⟩ | ⟨_, rfl⟩
    · refine .mk (fun _ _ => rfl) fun _ p hp => ?_
      simp only [handed, eventOf, Node.adopt, Node.withType, Option.elim, handedByEvent, ht, hc,
        paired, List.mem_cons, List.not_mem_nil, or_false] at hp
      rcases hp with rfl | rfl
      · exact first
      · exact second
    · refine .mk (fun _ _ => hn.marks_typed rfl rfl rfl) fun _ p hp => ?_
      simp only [handed, functionOf_tag, ht, Option.elim, handedByFunction_functionOf hc,
        List.mem_cons, List.not_mem_nil, or_false] at hp
      rcases hp with rfl | rfl | rfl
      · exact first
      · exact second
      · exact third
  · cases returns_pure_iff.mp h
    exact settled_lacking hn 2

end Below

end Rule

namespace Engine

/-- Whatever a visit hands back is settled in the place of the node it was given. -/
theorem settled_visit {e : Engine} (he : e.rules = []) (n : Node) (expected : Option Ty)
    (hn : n.Unannotated) (out : Node) (h : (e.visit n expected).Returns out) :
    Settled e (some n) out := by
  revert hn out
  refine e.visit_induction he
    (Q := fun m _ p => m.Unannotated → ∀ out, p.Returns out → Settled e (some m) out)
    ?_ ?_ n expected
  · intro n _ hidle _ out h
    obtain ⟨_, _, h⟩ := h.of_bind
    cases Pass.returns_pure_iff.mp h
    exact settled_of_idle hidle _
  · intro n t r ht hr ih expected hn out h
    have below : ∀ m : Node, m.Inside n → ∀ ex c, (e.visit m ex).Returns c →
        Settled e (some m) c := fun m hm ex c hc => ih m hm ex (hn.inside hm) c hc
    have blank := hn.self
    obtain ⟨_, _, h⟩ := h.of_bind
    cases hr with
    | source => exact Rule.settled_source below blank ht h
    | block => exact Rule.settled_block below blank (.inl ht) h
    | title =>
      cases Pass.returns_pure_iff.mp h
      exact Rule.settled_adopt blank (by simp [handed, Node.adopt, Node.withType, ht])
    | importList => exact Rule.settled_importList below blank ht h
    | importDecl => exact Rule.settled_importDecl ht blank h
    | variableDecl => exact Rule.settled_variableDecl below blank ht h
    | vPair => exact Rule.settled_pair (.inr ht) blank h
    | pair => exact Rule.settled_pair (.inl ht) blank h
    | functionDecl => exact Rule.settled_functionDecl below blank ht h
    | functionName => exact Rule.settled_functionName ht blank h
    | fdParam => exact Rule.settled_fdParam below blank ht h
    | fdPair => exact Rule.settled_fdPair ht blank h
    | fdBody => exact Rule.settled_fdBody below blank ht h
    | eventDecl =>
      cases Pass.returns_pure_iff.mp h
      exact Rule.settled_adopt blank
        (by simp [handed, Node.adopt, Node.withType, ht, handedByEvent])
    | assign => exact Rule.settled_assign below blank ht h
    | returnStatement => exact Rule.settled_returnStatement below blank ht h
    | recordStatement => exact Rule.settled_recordStatement below blank ht h
    | completeStatement =>
      cases Pass.returns_pure_iff.mp h
      exact settled_of_handed_nil (blank.marks_typed rfl rfl rfl)
        (by simp [handed, Node.withType, ht])
    | map1 => exact Rule.settled_mapping below blank (.inl ⟨ht, rfl⟩) h
    | map2 => exact Rule.settled_mapping below blank (.inr ⟨ht, rfl⟩) h
    | raw => exact Rule.settled_raw ht h
    | intExpr =>
      cases Pass.returns_pure_iff.mp h
      exact settled_of_handed_nil (blank.marks_typed rfl rfl rfl)
        (by simp [handed, Node.withType, ht])
    | structDefine => exact Rule.settled_structDefine below blank ht h
    | enumType => exact Rule.settled_enumType below blank ht h
    | wordDefine => exact Rule.settled_finishing below blank (.inl ht) h
    | assumeDecls => exact Rule.settled_finishing below blank (.inr ht) h
    | assumeDecl => exact Rule.settled_assumeDecl below blank ht h

/-- **Resolution.** In the finished tree of an unannotated unit no node carries two marks, and every
processed node whose kind has a rule, raw names apart, carries exactly one. -/
theorem checkUnit_resolves (config : Config) (tree : Node) (h : tree.Unannotated) :
    (∀ m ∈ (checkUnit { config } tree).value.nodes, m.marks ≤ 1) ∧
    ∀ given m, Processed tree (checkUnit { config } tree).value given m →
      (rule? { config } m.tag).isSome = true → m.tag ≠ .raw → m.marks = 1 := by
  constructor
  · have start : (Env.ofConfig config).Exclusive :=
      ⟨fun _ hd => absurd hd List.not_mem_nil, fun _ hp => absurd hp List.not_mem_nil⟩
    exact (exclusive_visit rfl tree (some .void) h _ start).1
  · intro given m hm hr hraw
    have root := settled_visit (e := { config }) rfl tree (some .void) h _
      (Pass.returns_self _ (.ofConfig config))
    exact (hm.settled root).marks_eq hr hraw

/-- A unit with a function of one parameter whose body ends in an event. -/
def eventUnit : Node :=
  { tag := .source
    children := [
      { tag := .functionDecl
        children := [
          .leaf .nameExpr "paid",
          { tag := .block
            children := [
              { tag := .functionParam
                children := [{ tag := .fdPair, children := [.leaf .nameExpr "payer"] }] },
              .leaf .eventStatement "Paid"] }] }] }

/-- The parameter of a function that became an event is processed, three places below the unit. -/
theorem checkUnit_resolves_event_parameter :
    eventUnit.Unannotated ∧
    ∃ given m, Processed eventUnit (checkUnit {} eventUnit).value given m ∧ m.tag = .fdPair ∧
      m.marks = 1 := by
  have hu : eventUnit.Unannotated := by decide
  have unit : Processed eventUnit (checkUnit {} eventUnit).value _ _ := .root
  have event := unit.child rfl List.mem_cons_self
  have params := event.child rfl (List.mem_cons_of_mem _ List.mem_cons_self)
  have param := params.child rfl List.mem_cons_self
  exact ⟨hu, _, _, param, rfl, (checkUnit_resolves {} eventUnit hu).2 _ _ param rfl (by decide)⟩

end Engine

end ContractTyping
