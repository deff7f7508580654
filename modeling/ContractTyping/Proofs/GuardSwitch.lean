import ContractTyping.Proofs.Everywhere
import ContractTyping.Proofs.SideBySide
import ContractTyping.Proofs.Simulation

/-!
The switch for guards. With guards switched on, bodies of functions may start with requirements, and
nothing else changes. Main statement: `Engine.switch_visit`, the run with the switch off simulates
the run with the switch on.
-/

namespace ContractTyping

namespace Node

/-- The second tree is the first with guards: own fields are the same everywhere, and bodies of
functions may start with further requirements. -/
inductive GuardedAs : Node → Node → Prop
  | node {n : Node} {guards rest : List Node} (kinds : ∀ g ∈ guards, g.tag = .require)
      (place : guards ≠ [] → n.tag = .fdBody) (children : List.Forall₂ GuardedAs n.children rest) :
      GuardedAs n { n with children := guards ++ rest }

/-- As above, but guards stand only in functions, behind a name and parameters. So what is read off
first children is the same for both trees. -/
inductive Switched : Node → Node → Prop
  | plain {n : Node} {rest : List Node} (children : List.Forall₂ Switched n.children rest) :
      Switched n { n with children := rest }
  | function {n name name' param param' body : Node}
      {middle middle' markers guards rest : List Node} (kind : n.tag = .functionDecl)
      (layout : n.children = name :: (middle ++ param :: body :: markers))
      (block : body.tag = .fdBody) (kinds : ∀ g ∈ guards, g.tag = .require)
      (first : Switched name name') (others : List.Forall₂ Switched middle middle')
      (params : Switched param param') (statements : List.Forall₂ Switched body.children rest) :
      Switched n { n with
        children := name' :: (middle' ++
          param' :: { body with children := guards ++ rest } :: markers) }

theorem withChildren_of_eq {n : Node} {children : List Node} (h : children = n.children) :
    { n with children } = n := by
  subst h
  cases n
  rfl

theorem Switched.refl (n : Node) : n.Switched n := by
  induction n using induction_on_children with
  | step n ih =>
    have same := Switched.plain (List.forall₂_same.mpr ih)
    rwa [withChildren_of_eq rfl] at same

theorem forall₂_of_mem {R S : Node → Node → Prop} {ms os : List Node} (h : List.Forall₂ R ms os)
    (hs : ∀ m ∈ ms, ∀ o, R m o → S m o) : List.Forall₂ S ms os := by
  have both := (List.forall₂_and_left ms os).mpr ⟨fun _ hm => hm, h⟩
  exact both.imp fun m o hm => hs m hm.1 o hm.2

theorem GuardedAs.plain {n : Node} {rest : List Node}
    (children : List.Forall₂ GuardedAs n.children rest) :
    n.GuardedAs { n with children := rest } :=
  @GuardedAs.node n [] rest (by simp) (by simp) children

theorem Switched.guardedAs {n n' : Node} (h : n.Switched n') : n.GuardedAs n' := by
  -- By size, not by children: statements are children of a body that is not related itself.
  induction hs : n.size using Nat.strongRecOn generalizing n n' with
  | ind size ih =>
    subst hs
    cases h with
    | plain children =>
      refine GuardedAs.plain (forall₂_of_mem children ?_)
      exact fun c hc o ho => ih c.size (size_lt_of_mem_children hc) ho rfl
    | @function _ name name' param param' body middle middle' markers guards rest kind layout block
        kinds first others params statements =>
      have inner : ∀ {c o : Node}, c ∈ n.children → c.Switched o → c.GuardedAs o :=
        fun hc ho => ih _ (size_lt_of_mem_children hc) ho rfl
      have hb : body ∈ n.children := by simp [layout]
      refine GuardedAs.plain ?_
      rw [layout]
      refine .cons (inner (by simp [layout]) first) (List.rel_append ?_ ?_)
      · exact forall₂_of_mem others fun c hc o ho => inner (by simp [layout, hc]) ho
      · refine .cons (inner (by simp [layout]) params) (.cons ?_ ?_)
        · refine GuardedAs.node kinds (fun _ => block) (forall₂_of_mem statements ?_)
          intro c hc o ho
          have small := Nat.lt_trans (size_lt_of_mem_children hc) (size_lt_of_mem_children hb)
          exact ih c.size small ho rfl
        · exact List.forall₂_same.mpr fun m hm => inner (by simp [layout, hm]) (Switched.refl m)

/-! ## What is read off both trees -/

theorem renamed_withChildren (n : Node) (children : List Node) :
    n.Renamed .id { n with children } := by
  refine ⟨rfl, rfl, rfl, rfl, ?_, rfl, rfl⟩
  cases n.error with
  | none => rfl
  | some d => exact congrArg some (Diagnostic.mapSpan_eq_self rfl).symm

theorem Renamed.eq_withChildren {n n' : Node} (h : n.Renamed .id n') :
    n' = { n with children := n'.children } := by
  obtain ⟨tag, payload, ty, context, error, done, span⟩ := h
  have kept := (n.renamed_withChildren n'.children).error
  cases n'
  dsimp only at tag payload ty context error done span kept
  rw [tag, payload, ty, done, error, ← kept]
  exact congrArg₂ (fun context span => Node.mk _ _ _ _ context _ _ span) context span

theorem Switched.renamed {n n' : Node} (h : n.Switched n') : n.Renamed .id n' := by
  cases h with
  | plain => exact n.renamed_withChildren _
  | function => exact n.renamed_withChildren _

theorem Switched.text {n n' : Node} (h : n.Switched n') : n'.text = n.text := by
  induction n using induction_on_children generalizing n' with
  | step n ih =>
    have first : ∀ {c c' : Node} {rest rest' : List Node}, n.children = c :: rest →
        c.Switched c' → { n with children := c' :: rest' }.text = n.text := by
      intro c c' rest rest' hc same
      have inner := ih c (hc ▸ List.mem_cons_self) same
      rw [text_of_children hc, ← inner]
      exact text_of_children rfl
    cases h with
    | @plain _ rest same =>
      cases hc : n.children with
      | nil =>
        rw [hc] at same
        cases same
        rw [withChildren_of_eq hc.symm]
      | cons c cs =>
        rw [hc] at same
        cases same with
        | cons head _ => exact first hc head
    | function _ layout _ _ same => exact first layout same

theorem Switched.leaf {n n' : Node} (h : n.Switched n') : n'.children = [] ↔ n.children = [] := by
  cases h with
  | plain same =>
    rw [← List.length_eq_zero_iff, ← List.length_eq_zero_iff, same.length_eq]
  | function _ layout => simp [layout]

/-- The name of a constructor has two children, so it is no function itself. -/
theorem Switched.isConstructor {n n' : Node} (h : n.Switched n') {config config' : Config}
    (name : config'.constructorName = config.constructorName) :
    Rule.isConstructor config' n' = Rule.isConstructor config n := by
  unfold Rule.isConstructor
  cases h with
  | @plain _ rest same =>
    generalize n.children = children at same
    rcases same with _ | ⟨_, _ | ⟨display, _ | _⟩⟩
    · rfl
    · rfl
    · simp only [display.text, name]
    · rfl
  | @function _ _ _ _ _ _ middle middle' _ _ _ _ layout =>
    rw [layout]
    rcases middle with _ | ⟨_, _ | _⟩ <;> rcases middle' with _ | ⟨_, _ | _⟩ <;> rfl

/-- Without functions there is nothing to guard. -/
theorem Switched.eq_of_free {n n' : Node} (h : n.Switched n')
    (free : n.All (·.tag ≠ .functionDecl)) : n' = n := by
  induction n using induction_on_children generalizing n' with
  | step n ih =>
    cases h with
    | plain same =>
      have equal : List.Forall₂ Eq n.children _ :=
        forall₂_of_mem same fun c hc o ho => (ih c hc ho (free.child hc)).symm
      exact withChildren_of_eq (List.forall₂_eq_eq_eq ▸ equal : n.children = _).symm
    | function kind => exact absurd kind free.self

/-- No function stands below an assumption. -/
def FreeAssumptions (n : Node) : Prop :=
  n.All fun m => m.tag = .assumeDecl → ∀ c ∈ m.children, c.All (·.tag ≠ .functionDecl)

instance (n : Node) : Decidable n.FreeAssumptions :=
  inferInstanceAs (Decidable (n.All fun m =>
    m.tag = .assumeDecl → ∀ c ∈ m.children, c.All (·.tag ≠ .functionDecl)))

end Node

/-! ## Trees without functions -/

namespace Engine

theorem establishes_free {e : Engine} (he : e.rules = []) :
    e.Establishes (Node.All (·.tag ≠ .functionDecl)) (·.tag ≠ .functionDecl) where
  inside h hm := h.inside hm
  untouched h := h.self
  root {n} expected h out hout := by
    rcases (visit_head he n expected out hout).tag with same | ⟨-, event⟩
    · rw [same]
      exact h.self
    · simp [event]
  named _ h hname := (h.child (Node.mem_of_nameChild? hname)).self
  normalized {m} h := by rwa [Node.normalizeValue_tag]
  made {m} made _ kind := by simp [kind, Tag.isMade] at made
  paramBlock raw param h := by simp [(Rule.paramBlock_returns h).1]
  bodyBlock raw guards _ body h := by simp [(Rule.bodyBlock_returns h).1]

/-- Without functions, nothing need be known of the ledger: none comes back. -/
theorem free_visit {e : Engine} (he : e.rules = []) {n out : Node} {expected : Option Ty}
    (free : n.All (·.tag ≠ .functionDecl)) (h : (e.visit n expected).Returns out) :
    out.All (·.tag ≠ .functionDecl) := by
  obtain ⟨env, rfl⟩ := h
  have stores : env.Stores fun _ => True := ⟨fun _ _ => trivial, fun _ _ => trivial⟩
  exact (everywhere_visit he (establishes_free he) n expected free (fun _ _ => trivial) (.inl free)
    env stores).1

end Engine

/-! ## The two runs -/

namespace Comparison

open Pass

/-- The first run has no guards, and no parameter waits for one. -/
def switched : Comparison :=
  simulation .id Node.Switched
    (fun b b' => ∃ guards rest, b.tag = .fdBody ∧ (∀ g ∈ guards, g.tag = .require) ∧
      List.Forall₂ Node.Switched b.children rest ∧ b' = { b with children := guards ++ rest })
    (fun gs gs' => gs = [] ∧ ∀ g ∈ gs', g.tag = .require) (fun ps _ => ps = []) List.Sublist

theorem sublist_logs : LawfulLogs List.Sublist := ⟨List.Sublist.refl, List.Sublist.append⟩

variable {config config' : Config}

theorem lawfulNodes_switched (name : config'.constructorName = config.constructorName) :
    LawfulNodes switched { config } { config := config' } where
  renamed h := h.renamed
  text h := h.text
  leaf h := h.leaf
  constructor h := h.isConstructor name
  untouched n := by
    show n.Switched (n.relabel .id)
    rw [Node.relabel_id]
    exact .refl n
  rebuilt {n n'} h := by
    show n.Switched n'
    rw [Node.Renamed.eq_withChildren h.head]
    exact .plain h.children
  function := by
    rintro n n' name name' param param' body body' middle middle' markers kind head layout layout'
      first others params ⟨guards, rest, block, kinds, statements, rfl⟩ -
    show n.Switched n'
    rw [Node.Renamed.eq_withChildren head, layout']
    exact .function kind layout block kinds first others params statements
  sealed := by
    rintro b b' gs gs' os os' block - head hc hc' ⟨rfl, kinds⟩ statements
    refine ⟨gs', os', block, kinds, ?_, ?_⟩
    · rwa [hc]
    · rw [← hc']
      exact head.eq_withChildren
  guardKinds := by
    rintro gs gs' ⟨rfl, kinds⟩
    exact ⟨by simp, kinds⟩

theorem lawfulGuards_switched (off : config.synthesizeGuards = false) :
    LawfulGuards switched { config } { config := config' } where
  awaitGuard := by
    intro ty p p' _ env env' alike
    have idle : Rule.awaitGuard config ty p = pure () := by simp [Rule.awaitGuard, off]
    dsimp only
    rw [idle]
    refine ⟨trivial, ?_, List.nil_sublist _⟩
    unfold Rule.awaitGuard
    split
    · exact ⟨alike.scope, alike.imports, alike.displayNames, alike.decls, alike.unguarded⟩
    · exact alike
  takeGuards := by
    intro env env' alike
    have none : env.ledger.unguarded = [] := alike.unguarded
    refine ⟨⟨?_, ?_⟩, ?_, ?_⟩
    · show env.ledger.unguarded.map _ = []
      rw [none]
      rfl
    · exact List.forall_mem_map.mpr fun p _ => rfl
    · exact ⟨alike.scope, alike.imports, alike.displayNames, alike.decls, rfl⟩
    · show List.Sublist (env.ledger.unguarded.map _ ++ []) _
      rw [none]
      exact List.nil_sublist _
  announceGuards := by
    rintro function gs gs' ⟨rfl, _⟩ env env' alike
    exact ⟨trivial, alike, List.nil_sublist _⟩
  passOver := by
    rintro gs gs' ⟨rfl, _⟩ env env' alike
    exact ⟨trivial, alike, List.nil_sublist _⟩

end Comparison

namespace Engine

/-- The run without guards simulates any run that differs in settings for guards only. -/
theorem switch_visit (config config' : Config) (off : config.synthesizeGuards = false)
    (name : config'.constructorName = config.constructorName)
    (stem : config'.enumStem = config.enumStem) (n : Node) (expected : Option Ty)
    (hn : n.FreeAssumptions) :
    Comparison.switched.run Node.Switched (visit { config } n expected)
      (visit { config := config' } n expected) := by
  have lawful : Comparison.Lawful .switched { config } { config := config' } :=
    { toLawfulNodes := Comparison.lawfulNodes_switched name
      toLawfulRuns := Comparison.lawfulRuns_simulation Comparison.sublist_logs rfl rfl stem
        (Comparison.lawfulGuards_switched off) }
  have run := Comparison.like_visit lawful (H := Node.FreeAssumptions) ?_ ?_ rfl
    (fun h hm => Node.All.inside h hm) n expected hn
  · rwa [show n.relabel Comparison.switched.relabeling = n from n.relabel_id] at run
  · -- What an assumption is bound to has no guards in it.
    intro n c o o' ex hn ht hc returned same
    have free := free_visit rfl (hn.self ht c hc) returned
    rw [Node.Switched.eq_of_free same free]
    exact ⟨.refl _, rfl⟩
  · intro n _ _
    exact Comparison.lawfulUnits_simulation Comparison.sublist_logs rfl

/-- **The switch for guards.** With guards switched on, a unit comes back with further requirements
at the start of bodies of functions, and is the same otherwise. Scopes are the same, and the log has
further entries at most. -/
theorem checkUnit_synthesizeGuards (config : Config) (tree : Node) (h : tree.FreeAssumptions) :
    let off := checkUnit { config := config.set (.synthesizeGuards false) } tree
    let on := checkUnit { config := config.set (.synthesizeGuards true) } tree
    off.value.GuardedAs on.value ∧ on.env.scope = off.env.scope ∧ off.log.Sublist on.log := by
  have run := switch_visit (config.set (.synthesizeGuards false))
    (config.set (.synthesizeGuards true)) rfl rfl rfl tree (some .void) h
  obtain ⟨value, env, log⟩ := run (.ofConfig config) (.ofConfig config) ⟨rfl, rfl, rfl, .nil, rfl⟩
  exact ⟨value.guardedAs, env.scope, log⟩

/-- A unit that moves a balance between two addresses. A helper with an address of its own stands in
an enumeration, so that its body is hoisted as well. -/
def transferUnit : Node :=
  { tag := .source
    children := [
      { tag := .functionDecl
        children := [
          .leaf .nameExpr "transfer",
          { tag := .block
            children := [
              { tag := .functionParam
                children := [{ tag := .fdPair, children := [.leaf .nameExpr "from"] }] },
              { tag := .functionParam
                children := [{ tag := .fdPair, children := [.leaf .nameExpr "to"] }] },
              { tag := .enumType
                children := [
                  { tag := .functionDecl
                    children := [
                      .leaf .nameExpr "refund",
                      { tag := .block
                        children := [
                          { tag := .functionParam
                            children := [
                              { tag := .fdPair, children := [.leaf .nameExpr "to"] }] }] }] }] },
              .leaf .completeStatement "done"] }] },
      { tag := .assumeDecls
        children := [
          { tag := .assumeDecl, children := [.leaf .nameExpr "from", .leaf .text "address"] },
          { tag := .assumeDecl, children := [.leaf .nameExpr "to", .leaf .text "address"] }] }] }

/-- The two runs differ, and by guards only. -/
theorem checkUnit_synthesizeGuards_transfer :
    transferUnit.FreeAssumptions ∧
    (checkUnit { config := Config.set {} (.synthesizeGuards false) } transferUnit).value.GuardedAs
      (checkUnit { config := Config.set {} (.synthesizeGuards true) } transferUnit).value ∧
    (checkUnit { config := Config.set {} (.synthesizeGuards false) } transferUnit).value ≠
      (checkUnit { config := Config.set {} (.synthesizeGuards true) } transferUnit).value := by
  have free : transferUnit.FreeAssumptions := by decide
  exact ⟨free, (checkUnit_synthesizeGuards {} transferUnit free).1, by decide⟩

end Engine

end ContractTyping
