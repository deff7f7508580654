import ContractTyping.Proofs.Everywhere
import ContractTyping.Proofs.Hoisting

/-!
Types of neighbouring nodes agree. What a rule writes on a node is fixed by the types of its
children at that moment, and nothing that happens later breaks the agreement. Main statement:
`Engine.establishes_wellTyped`, each rule hands back a node that agrees with its children.
-/

namespace ContractTyping

namespace Node

/-- A pair has the type of the name in its second place. -/
def PairTyped (m : Node) : Prop :=
  ∀ ty, m.ty = some ty → ∃ name, m.children[1]? = some name ∧ name.ty = some ty

/-- A parameter has the type of its name, which a marker follows exactly for strings. -/
def ParamTyped (m : Node) : Prop :=
  ∀ ty, m.ty = some ty → ∃ front name,
    m.children = front ++ name :: (if ty = .string
      then [(leaf .memoryType "").withContext "memory"] else []) ∧
    name.IsPlainName ∧ name.ty = some ty

/-- An access has the type that its operand returns. When the operand is no mapping, the access
tells the type of the operand, and its indices are as before. -/
structure AccessTyped (arity : Nat) (m : Node) : Prop where
  typed : ∀ ty, m.ty = some ty → ∃ operand params, m.children[arity]? = some operand ∧
    operand.ty = some (.function params (some ty)) ∧ params.length = arity
  fault : ∀ found count span, m.error = some (.typeFault (.notAMapping found count span)) →
    ∃ operand, m.children[arity]? = some operand ∧
      (∀ params ty, operand.ty = some (.function params (some ty)) → params.length ≠ arity) ∧
      found = (Ty.orUnknown operand.ty).render ∧ ∀ c ∈ m.children.take arity, c.Unannotated

/-- A return has the type of its operand, if that has one. -/
def ReturnTyped (m : Node) : Prop :=
  ∀ ty, m.ty = some ty → ∀ operand ∈ m.children.head?, ∀ t, operand.ty = some t → ty = t

/-- A block of parameters has the type of a function of these, its result left open. -/
def BlockTyped (m : Node) : Prop :=
  ∀ ty, m.ty = some ty → ty = .function (m.children.map fun c => c.ty.getD .unknown) none

/-- A body has the type of a final return or completion, and `void` otherwise. -/
def BodyTyped (m : Node) : Prop :=
  ∀ ty, m.ty = some ty →
    (∃ last, m.children.getLast? = some last ∧
      (last.tag = .returnStatement ∨ last.tag = .completeStatement) ∧ ty = last.ty.getD .unknown) ∨
    ((∀ last ∈ m.children.getLast?, last.tag ≠ .returnStatement ∧ last.tag ≠ .completeStatement) ∧
      ty = .void)

/-- The type of a node agrees with those of its children, as its kind asks. -/
def WellTyped (m : Node) : Prop :=
  match m.tag with
  | .pair | .vPair => m.PairTyped
  | .fdPair => m.ParamTyped
  | .map1 => m.AccessTyped 1
  | .map2 => m.AccessTyped 2
  | .returnStatement => m.ReturnTyped
  | .fdParam => m.BlockTyped
  | .fdBody => m.BodyTyped
  | _ => True

/-- Nothing is asked of the type of a node that has none. -/
theorem of_untyped {P : Ty → Prop} {m : Node} (h : m.ty = none) (ty : Ty) (ht : m.ty = some ty) :
    P ty := by
  simp [h] at ht

theorem wellTyped_of_blank {m : Node} (h : m.Blank) : m.WellTyped := by
  have access : ∀ arity, m.AccessTyped arity := fun _ => ⟨of_untyped h.1, by simp [h.2.1]⟩
  unfold WellTyped
  split
  · exact of_untyped h.1
  · exact of_untyped h.1
  · exact of_untyped h.1
  · exact access 1
  · exact access 2
  · exact of_untyped h.1
  · exact of_untyped h.1
  · exact of_untyped h.1
  · trivial

/-! ## Fixing widths -/

theorem IsPlainName.normalizeValue {m : Node} (h : m.IsPlainName) :
    m.normalizeValue.IsPlainName := by
  unfold IsPlainName
  rw [normalizeValue_tag, normalizeValue_children, h.2]
  exact ⟨h.1, rfl⟩

theorem Unannotated.normalizeValue {m : Node} (h : m.Unannotated) :
    m.normalizeValue.Unannotated := by
  refine All.normalizeValue (fun k hk => ?_) h
  unfold Blank
  rwa [normalizeValue_ty, normalizeValue_error, normalizeValue_done]

theorem PairTyped.normalizeValue {m : Node} (h : m.PairTyped) : m.normalizeValue.PairTyped := by
  intro ty ht
  rw [normalizeValue_ty] at ht
  obtain ⟨name, hc, hn⟩ := h ty ht
  refine ⟨name.normalizeValue, ?_, ?_⟩
  · rw [normalizeValue_children, List.getElem?_map, hc, Option.map_some]
  · rwa [normalizeValue_ty]

theorem ParamTyped.normalizeValue {m : Node} (h : m.ParamTyped) :
    m.normalizeValue.ParamTyped := by
  intro ty ht
  rw [normalizeValue_ty] at ht
  obtain ⟨front, name, hc, plain, hn⟩ := h ty ht
  refine ⟨front.map Node.normalizeValue, name.normalizeValue, ?_, plain.normalizeValue, ?_⟩
  · rw [normalizeValue_children, hc, List.map_append, List.map_cons]
    split <;> rfl
  · rwa [normalizeValue_ty]

theorem AccessTyped.normalizeValue {arity : Nat} {m : Node} (h : m.AccessTyped arity) :
    m.normalizeValue.AccessTyped arity where
  typed ty ht := by
    rw [normalizeValue_ty] at ht
    obtain ⟨operand, params, hc, ho, hl⟩ := h.typed ty ht
    refine ⟨operand.normalizeValue, params, ?_, ?_, hl⟩
    · rw [normalizeValue_children, List.getElem?_map, hc, Option.map_some]
    · rwa [normalizeValue_ty]
  fault found count span he := by
    rw [normalizeValue_error] at he
    obtain ⟨operand, hc, ho, hf, hi⟩ := h.fault found count span he
    refine ⟨operand.normalizeValue, ?_, ?_, ?_, ?_⟩
    · rw [normalizeValue_children, List.getElem?_map, hc, Option.map_some]
    · rwa [normalizeValue_ty]
    · rwa [normalizeValue_ty]
    · rw [normalizeValue_children, ← List.map_take]
      exact List.forall_mem_map.mpr fun c hm => (hi c hm).normalizeValue

theorem ReturnTyped.normalizeValue {m : Node} (h : m.ReturnTyped) :
    m.normalizeValue.ReturnTyped := by
  intro ty ht operand ho t hot
  rw [normalizeValue_ty] at ht
  rw [normalizeValue_children, List.head?_map] at ho
  obtain ⟨o, hh, rfl⟩ := Option.map_eq_some_iff.mp ho
  rw [normalizeValue_ty] at hot
  exact h ty ht o hh t hot

theorem BlockTyped.normalizeValue {m : Node} (h : m.BlockTyped) :
    m.normalizeValue.BlockTyped := by
  intro ty ht
  rw [normalizeValue_ty] at ht
  simp only [h ty ht, normalizeValue_children, List.map_map, Function.comp_def, normalizeValue_ty]

theorem BodyTyped.normalizeValue {m : Node} (h : m.BodyTyped) : m.normalizeValue.BodyTyped := by
  intro ty ht
  rw [normalizeValue_ty] at ht
  rw [normalizeValue_children, List.getLast?_map]
  rcases h ty ht with ⟨last, hl, kind, result⟩ | ⟨kinds, result⟩
  · refine .inl ⟨last.normalizeValue, by rw [hl, Option.map_some], ?_, ?_⟩
    · rwa [normalizeValue_tag]
    · rwa [normalizeValue_ty]
  · refine .inr ⟨fun o ho => ?_, result⟩
    obtain ⟨last, hl, rfl⟩ := Option.map_eq_some_iff.mp ho
    rw [normalizeValue_tag]
    exact kinds last hl

theorem WellTyped.normalizeValue {m : Node} (h : m.WellTyped) : m.normalizeValue.WellTyped := by
  unfold WellTyped at h ⊢
  rw [normalizeValue_tag]
  split at h
  · exact PairTyped.normalizeValue h
  · exact PairTyped.normalizeValue h
  · exact ParamTyped.normalizeValue h
  · exact AccessTyped.normalizeValue h
  · exact AccessTyped.normalizeValue h
  · exact ReturnTyped.normalizeValue h
  · exact BlockTyped.normalizeValue h
  · exact BodyTyped.normalizeValue h
  · trivial

end Node

/-! ## Rules -/

namespace Rule

open Pass

variable {v : Visitor} {n : Node} {expected : Option Ty}

theorem bodyTyped_sealBody (n : Node) (children : List Node) :
    (sealBody n children).BodyTyped := by
  rintro ty ⟨⟩
  show (∃ last, children.getLast? = some last ∧ _) ∨ (∀ last ∈ children.getLast?, _) ∧ _
  unfold resultType
  cases hl : children.getLast? with
  | none => exact .inr ⟨by simp, rfl⟩
  | some last =>
    dsimp only
    split
    · rename_i kind
      exact .inl ⟨last, rfl, kind, rfl⟩
    · rename_i kind
      exact .inr ⟨by simpa using kind, rfl⟩

theorem blockTyped_sealParams (n : Node) (children : List Node) :
    (sealParams n children).BlockTyped := by
  rintro ty ⟨⟩
  rfl

/-- A node on which a name is reported stays untyped. -/
theorem untyped_resolving {G : Node → Prop} {m : Node} {name : String} {found : Ty → Pass Node}
    (untyped : m.ty = none) (hG : ∀ out : Node, out.ty = none → G out)
    (h : ∀ ty, (found ty).Yields G) : (resolving m name found).Yields G := by
  refine .bind fun ty _ => ?_
  cases ty with
  | some ty => exact h ty
  | none => exact .bind fun _ _ => .pure (hG _ untyped)

theorem pairTyped_pair (untyped : n.ty = none) : (pair v n expected).Yields Node.PairTyped := by
  unfold pair
  split
  · refine untyped_resolving untyped (fun _ => Node.of_untyped) fun ty => .pure ?_
    rintro _ ⟨⟩
    exact ⟨_, rfl, rfl⟩
  · exact .pure (Node.of_untyped untyped)

theorem memoryMarker_eq (ty : Ty) :
    memoryMarker ty =
      if ty = .string then [(Node.leaf .memoryType "").withContext "memory"] else [] := by
  unfold memoryMarker
  by_cases h : ty = .string
  · rw [if_pos h, if_pos (Ty.isNamed_iff.mpr h)]
  · rw [if_neg h, if_neg fun named => h (Ty.isNamed_iff.mp named)]

theorem paramTyped_fdPair {config : Config} (untyped : n.ty = none)
    (plain : ∀ c ∈ n.children.getLast?, c.IsPlainName) :
    (fdPair config v n expected).Yields Node.ParamTyped := by
  unfold fdPair
  split
  · exact .pure (Node.of_untyped untyped)
  · rename_i name hl
    refine untyped_resolving untyped (fun _ => Node.of_untyped) fun ty => .bind fun _ _ => .pure ?_
    rintro _ ⟨⟩
    refine ⟨n.children.dropLast, name.withType (some ty), ?_, plain name hl, rfl⟩
    rw [← memoryMarker_eq]

theorem accessTyped_mapping (arity : Nat) (blank : n.Unannotated) :
    (mapping arity v n expected).Yields (Node.AccessTyped arity) := by
  obtain ⟨untyped, sound, -⟩ := blank.self
  unfold mapping
  split
  · exact .pure ⟨Node.of_untyped untyped, fun _ _ _ he => by simp [Node.lacking, Node.fail] at he⟩
  · rename_i operand rest hd
    have length : (n.children.take arity).length = arity := by
      have some : (n.children.drop arity).length ≠ 0 := by simp [hd]
      rw [List.length_drop] at some
      rw [List.length_take]
      omega
    have place : ∀ {indices : List Node} {o : Node}, indices.length = arity →
        (indices ++ o :: rest)[arity]? = some o := by
      rintro indices o rfl
      simp
    refine .bind fun o _ => ?_
    split
    · rename_i params returns hm
      refine .bind fun indices hi => .pure ⟨?_, fun _ _ _ he => ?_⟩
      · rintro _ ⟨⟩
        obtain ⟨ty, hty, shape⟩ := Option.bind_eq_some_iff.mp hm
        obtain ⟨rfl, arityOf⟩ := Ty.asMapping_eq_some_iff.mp shape
        exact ⟨o, params, place ((visitAll_returns hi).length_eq.symm.trans length), hty, arityOf⟩
      · exact absurd (sound.symm.trans he) (by simp)
    · rename_i hm
      refine .pure ⟨Node.of_untyped untyped, ?_⟩
      rintro _ _ _ ⟨⟩
      refine ⟨o, place length, fun params ty hty arityOf => ?_, rfl, ?_⟩
      · rw [hty, Option.bind_some, Ty.asMapping_eq_some_iff.mpr ⟨rfl, arityOf⟩] at hm
        cases hm
      · show ∀ c ∈ (n.children.take arity ++ o :: rest).take arity, _
        rw [List.take_left' length]
        exact fun c hc => blank.child (List.mem_of_mem_take hc)

theorem returnTyped_returnStatement (untyped : n.ty = none) :
    (returnStatement v n expected).Yields Node.ReturnTyped := by
  unfold returnStatement
  split
  · rename_i operand rest _
    refine .bind fun o _ => ?_
    have agrees : ∀ ty, (∀ t, o.ty = some t → ty = t) →
        ({ n with children := o :: rest }.withType (some ty)).ReturnTyped := by
      rintro ty same _ ⟨⟩ _ ⟨⟩ t ht
      exact same t ht
    dsimp only
    split
    · rename_i ty hty
      exact .pure (agrees ty fun t ht => Option.some.inj (hty.symm.trans ht))
    · rename_i name hty _ _ _
      refine untyped_resolving untyped (fun _ => Node.of_untyped) fun ty => .pure ?_
      exact agrees ty (Node.of_untyped hty)
    · rename_i hty _
      exact .pure (agrees .unknown (Node.of_untyped hty))
  · exact .pure (Node.of_untyped untyped)

end Rule

/-! ## Visits -/

namespace Engine

open Pass Rule

variable {e : Engine}

/-- The pass has not touched the tree, and names are plain. -/
structure Fresh (n : Node) : Prop where
  blank : n.Unannotated
  names : n.PlainNames

theorem returns_of_visit (he : e.rules = []) {n out : Node} {expected : Option Ty} {r : Rule}
    (hr : e.rule? n.tag = some r) (h : (e.visit n expected).Returns out) :
    (r e.visit n expected).Returns out := by
  rw [visit_of_rule he hr] at h
  obtain ⟨_, _, h⟩ := h.of_bind
  exact h

theorem wellTyped_visit (he : e.rules = []) {n : Node} (expected : Option Ty) (hn : Fresh n) :
    (e.visit n expected).Yields Node.WellTyped := by
  intro out hout
  have untyped : n.ty = none := hn.blank.self.1
  have rule : ∀ {r : Rule}, e.rule? n.tag = some r → (r e.visit n expected).Returns out :=
    fun hr => returns_of_visit he hr hout
  rcases visit_head he n expected out hout with same | ⟨-, ⟨-, kind⟩ | ⟨-, kind⟩⟩
  · unfold Node.WellTyped
    rw [same.tag]
    split
    · rename_i ht
      exact pairTyped_pair untyped out (rule (ht ▸ rfl))
    · rename_i ht
      exact pairTyped_pair untyped out (rule (ht ▸ rfl))
    · rename_i ht
      have returned := rule (r := fdPair e.config) (ht ▸ rfl)
      exact paramTyped_fdPair untyped (hn.names.self.2 ht) out returned
    · rename_i ht
      exact accessTyped_mapping 1 hn.blank out (rule (ht ▸ rfl))
    · rename_i ht
      exact accessTyped_mapping 2 hn.blank out (rule (ht ▸ rfl))
    · rename_i ht
      exact returnTyped_returnStatement untyped out (rule (ht ▸ rfl))
    · rename_i ht
      obtain ⟨children, -, h⟩ := (rule (r := fdParam) (ht ▸ rfl)).of_bind
      cases returns_pure_iff.mp h
      exact blockTyped_sealParams n children
    · rename_i ht
      obtain ⟨children, -, h⟩ := (rule (r := fdBody) (ht ▸ rfl)).of_bind
      cases returns_pure_iff.mp h
      exact bodyTyped_sealBody n children
    · trivial
  · simp [Node.WellTyped, kind]
  · simp [Node.WellTyped, kind]

theorem establishes_wellTyped (he : e.rules = []) : e.Establishes Fresh Node.WellTyped where
  inside h hm := ⟨h.blank.inside hm, Node.All.inside h.names hm⟩
  untouched h := Node.wellTyped_of_blank h.blank.self
  root expected h := wellTyped_visit he expected h
  named {n name} ty h hname := by
    have plain : name.IsPlainName := by
      unfold Node.nameChild? at hname
      split at hname
      · exact h.names.self.1 (.inl ‹_›) name hname
      · exact h.names.self.1 (.inr ‹_›) name hname
      · exact h.names.self.2 ‹_› name hname
      · cases hname
    rcases plain.1 with kind | kind <;> simp [Node.WellTyped, Node.withType, kind]
  normalized h := h.normalizeValue
  made {m} made _ := by
    unfold Node.WellTyped
    split
    all_goals simp_all [Tag.isMade]
  paramBlock raw param h := by
    obtain ⟨_, _, h⟩ := h.of_bind
    obtain ⟨children, -, h⟩ := h.of_bind
    cases returns_pure_iff.mp h
    exact blockTyped_sealParams _ children
  bodyBlock raw guards _ body h := by
    obtain ⟨_, _, h⟩ := h.of_bind
    obtain ⟨_, _, h⟩ := h.of_bind
    obtain ⟨children, -, h⟩ := h.of_bind
    cases returns_pure_iff.mp h
    exact bodyTyped_sealBody _ (guards ++ children)

/-- **Local typing.** Every node of a finished unit has the type that its kind and the types of its
children ask for, copies among the hoisted declarations included. -/
theorem checkUnit_wellTyped (config : Config) (tree : Node) (blank : tree.Unannotated)
    (names : tree.PlainNames) : (checkUnit { config } tree).value.All Node.WellTyped := by
  have stores : (Env.ofConfig config).Stores (Node.All Node.WellTyped) :=
    ⟨List.forall_mem_nil _, List.forall_mem_nil _⟩
  exact (everywhere_visit rfl (establishes_wellTyped rfl) tree (some .void) ⟨blank, names⟩
    (fun _ h => h) (.inr fun _ h => h) _ stores).1

/-- A unit that reads two balances. The second is no mapping of two indices, and its indices stay
as they are. -/
def balanceUnit : Node :=
  { tag := .source
    children := [
      { tag := .functionDecl
        children := [
          .leaf .nameExpr "balance",
          { tag := .block
            children := [
              { tag := .functionParam
                children := [{ tag := .fdPair, children := [.leaf .nameExpr "memo"] }] },
              { tag := .map1, children := [.leaf .raw "owner", .leaf .raw "balances"] },
              { tag := .map2
                children := [.leaf .raw "owner", .leaf .raw "owner", .leaf .raw "balances"] },
              { tag := .returnStatement
                children := [
                  { tag := .pair
                    children := [.leaf .text "of", .leaf .nameExpr "owner"] }] }] }] }] }

def balanceConfig : Config :=
  { prelude := [("memo", .string), ("owner", .address),
      ("balances", .function [.address] (some .int256))] }

/-- The first access is typed, the second is not. -/
theorem checkUnit_wellTyped_balance :
    balanceUnit.Unannotated ∧ balanceUnit.PlainNames ∧
    (checkUnit { config := balanceConfig } balanceUnit).value.All Node.WellTyped ∧
    (∃ m ∈ (checkUnit { config := balanceConfig } balanceUnit).value.nodes,
      m.tag = .map1 ∧ m.ty = some .int256) ∧
    (∃ m ∈ (checkUnit { config := balanceConfig } balanceUnit).value.nodes,
      m.tag = .map2 ∧ m.error.isSome = true) ∧
    (∃ m ∈ (checkUnit { config := balanceConfig } balanceUnit).value.nodes,
      m.tag = .fdBody ∧ m.ty = some .address) := by
  have blank : balanceUnit.Unannotated := by decide
  have names : balanceUnit.PlainNames := by decide
  exact ⟨blank, names, checkUnit_wellTyped balanceConfig balanceUnit blank names, by decide,
    by decide, by decide⟩

end Engine

end ContractTyping
