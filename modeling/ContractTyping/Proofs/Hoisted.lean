import ContractTyping.Proofs.Tree
import Mathlib.Data.List.Perm.Basic

/-!
The declarations of a finished tree: what its typed structures and enumerations contribute to the
top level of the unit, in the order in which the pass meets them. Main statement:
`Node.declarations_perm`, the order apart these are the contributions of all nodes of the tree.
-/

namespace ContractTyping

/-- Children in the order in which they are visited: a mapping comes before its indices. -/
def processingOrder : Tag → List α → List α
  | .map1, index :: operand :: rest => operand :: index :: rest
  | .map2, first :: second :: operand :: rest => operand :: first :: second :: rest
  | _, ms => ms

/-- Nodes of the kind contribute nothing of their own, and have their children visited in order. -/
def Tag.isOrdinary : Tag → Bool
  | .map1 | .map2 | .structDefine | .enumType => false
  | _ => true

theorem processingOrder_map (f : α → β) (t : Tag) (ms : List α) :
    processingOrder t (ms.map f) = (processingOrder t ms).map f := by
  cases t with
  | map1 => rcases ms with _ | ⟨a, _ | ⟨b, ms⟩⟩ <;> rfl
  | map2 => rcases ms with _ | ⟨a, _ | ⟨b, _ | ⟨c, ms⟩⟩⟩ <;> rfl
  | _ => rfl

theorem processingOrder_perm (t : Tag) (ms : List α) : (processingOrder t ms).Perm ms := by
  unfold processingOrder
  split
  · exact .swap _ _ _
  · exact .trans (.swap _ _ _) (.cons _ (.swap _ _ _))
  · exact .refl _

theorem processingOrder_ordinary {t : Tag} (h : t.isOrdinary = true) (ms : List α) :
    processingOrder t ms = ms := by
  unfold processingOrder
  split
  · cases h
  · cases h
  · rfl

/-- The kinds of access to mappings, with the number of indices. -/
def IsMapping (t : Tag) (arity : Nat) : Prop := t = .map1 ∧ arity = 1 ∨ t = .map2 ∧ arity = 2

theorem processingOrder_mapping {t : Tag} {indices : List α} (ht : IsMapping t indices.length)
    (operand : α) (rest : List α) :
    processingOrder t (indices ++ operand :: rest) = operand :: (indices ++ rest) := by
  rcases ht with ⟨rfl, hl⟩ | ⟨rfl, hl⟩
  · obtain ⟨a, rfl⟩ := List.length_eq_one_iff.mp hl
    rfl
  · obtain ⟨a, b, rfl⟩ := List.length_eq_two.mp hl
    rfl

/-- The children of a unit in the order in which they are visited: a trailing block of assumptions
comes first. -/
def unitOrder (ms : List Node) : List Node :=
  match ms.getLast? with
  | some last => if last.tag = .assumeDecls then last :: ms.dropLast else ms
  | none => ms

theorem unitOrder_perm (ms : List Node) : (unitOrder ms).Perm ms := by
  unfold unitOrder
  split
  · rename_i last hl
    split
    · have whole := List.dropLast_append_getLast? last hl
      nth_rewrite 2 [← whole]
      exact (List.perm_append_singleton last ms.dropLast).symm
    · exact .refl _
  · exact .refl _

theorem unitOrder_assumptions (ms : List Node) {last : Node} (h : last.tag = .assumeDecls) :
    unitOrder (ms ++ [last]) = last :: ms := by
  simp only [unitOrder, List.getLast?_concat, h, ↓reduceIte, List.dropLast_concat]

theorem unitOrder_plain {ms : List Node}
    (h : ∀ last, ms.getLast? = some last → last.tag ≠ .assumeDecls) : unitOrder ms = ms := by
  unfold unitOrder
  split
  · rename_i last hl
    rw [if_neg (h last hl)]
  · rfl

namespace Node

/-- What a node contributes to the top level. A typed structure is copied; a typed enumeration is
laid out as a definition of its elements under its name, which stands last. -/
def declaration (n : Node) : List Node :=
  match n.tag, n.ty with
  | .structDefine, some _ => [n]
  | .enumType, some ty =>
    [{ tag := .enumDefine
       children :=
        { tag := .enumElement, children := n.children.dropLast, context := some "data" } ::
          n.children.getLast?.toList
       ty := some ty
       span := n.span }]
  | _, _ => []

mutual

/-- The contributions of a tree in processing order, a node after its children. -/
def declarations : Node → List Node
  | n@⟨tag, children, _, _, _, _, _, _⟩ =>
    (processingOrder tag (declarationsEach children)).flatten ++ n.declaration

def declarationsEach : List Node → List (List Node)
  | [] => []
  | n :: ns => n.declarations :: declarationsEach ns

end

theorem declarationsEach_eq_map (ns : List Node) : declarationsEach ns = ns.map declarations := by
  induction ns with
  | nil => rfl
  | cons n ns ih => rw [declarationsEach, ih, List.map_cons]

theorem declarations_eq (n : Node) :
    n.declarations = (processingOrder n.tag n.children).flatMap declarations ++ n.declaration := by
  cases n
  rw [declarations, declarationsEach_eq_map, processingOrder_map, List.flatMap]

theorem declarations_perm (n : Node) : n.declarations.Perm (n.nodes.flatMap declaration) := by
  induction n using induction_on_children with
  | step n ih =>
    have reordered : ((processingOrder n.tag n.children).flatMap declarations).Perm
        (n.children.flatMap declarations) :=
      (processingOrder_perm n.tag n.children).flatMap_right _
    have each : (n.children.flatMap declarations).Perm
        ((n.children.flatMap nodes).flatMap declaration) := by
      rw [List.flatMap_assoc]
      exact List.Perm.flatMap_left _ ih
    rw [declarations_eq, nodes_eq, List.flatMap_cons]
    exact ((reordered.trans each).append_right _).trans List.perm_append_comm

theorem declarations_eq_nil_iff {n : Node} :
    n.declarations = [] ↔ n.All fun m => m.declaration = [] := by
  rw [← List.perm_nil, List.Perm.congr_left n.declarations_perm, List.perm_nil,
    List.flatMap_eq_nil_iff]
  rfl

theorem declaration_eq_nil_iff {n : Node} :
    n.declaration = [] ↔ n.ty = none ∨ n.tag ≠ .structDefine ∧ n.tag ≠ .enumType := by
  unfold declaration
  split
  · simp_all
  · simp_all
  · rename_i struct enum
    cases hty : n.ty with
    | none => simp
    | some ty =>
      have notStruct : n.tag ≠ .structDefine := fun h => struct ty h hty
      have notEnum : n.tag ≠ .enumType := fun h => enum ty h hty
      simp [notStruct, notEnum]

theorem declaration_ordinary {n : Node} (h : n.tag.isOrdinary = true) : n.declaration = [] := by
  refine declaration_eq_nil_iff.mpr (.inr ⟨?_, ?_⟩)
  · rintro ht
    simp [ht, Tag.isOrdinary] at h
  · rintro ht
    simp [ht, Tag.isOrdinary] at h

theorem declarations_ordinary {n : Node} (h : n.tag.isOrdinary = true) :
    n.declarations = n.children.flatMap declarations := by
  rw [declarations_eq, processingOrder_ordinary h, declaration_ordinary h, List.append_nil]

theorem declarations_mapping {n : Node} {indices rest : List Node} {operand : Node}
    (ht : IsMapping n.tag indices.length) (hc : n.children = indices ++ operand :: rest) :
    n.declarations =
      operand.declarations ++ (indices.flatMap declarations ++ rest.flatMap declarations) := by
  have own : n.declaration = [] := by
    refine declaration_eq_nil_iff.mpr (.inr ⟨?_, ?_⟩)
    · rcases ht with ⟨h, -⟩ | ⟨h, -⟩ <;> simp [h]
    · rcases ht with ⟨h, -⟩ | ⟨h, -⟩ <;> simp [h]
  rw [declarations_eq, hc, processingOrder_mapping ht, own, List.append_nil, List.flatMap_cons,
    List.flatMap_append]

/-- A typed structure comes after what its children declare. -/
theorem declarations_structDefine {n : Node} (ht : n.tag = .structDefine) {ty : Ty}
    (hty : n.ty = some ty) : n.declarations = n.children.flatMap declarations ++ [n] := by
  rw [declarations_eq, ht]
  simp only [processingOrder, declaration, ht, hty]

/-- So does a typed enumeration. -/
theorem declarations_enumType {n : Node} (ht : n.tag = .enumType) {ty : Ty} (hty : n.ty = some ty)
    {elements : List Node} {name : Node} (hc : n.children = elements ++ [name]) :
    n.declarations = elements.flatMap declarations ++ name.declarations ++
      [{ tag := .enumDefine
         children := [{ tag := .enumElement, children := elements, context := some "data" }, name]
         ty := some ty
         span := n.span }] := by
  rw [declarations_eq, ht]
  simp only [processingOrder, declaration, ht, hty, hc, List.flatMap_append, List.flatMap_cons,
    List.flatMap_nil, List.append_nil, List.dropLast_concat, List.getLast?_concat,
    Option.toList_some]

theorem declarations_eq_nil_of {n : Node} (own : n.declaration = [])
    (hc : ∀ c ∈ n.children, c.declarations = []) : n.declarations = [] :=
  declarations_eq_nil_iff.mpr
    (all_iff.mpr ⟨own, fun c hm => declarations_eq_nil_iff.mp (hc c hm)⟩)

theorem Unannotated.declarations_eq_nil {n : Node} (h : n.Unannotated) : n.declarations = [] :=
  declarations_eq_nil_iff.mpr (All.mono (fun _ hm => declaration_eq_nil_iff.mpr (.inl hm.1)) h)

theorem flatMap_declarations_eq_nil {ms : List Node} (h : ∀ m ∈ ms, m.Unannotated) :
    ms.flatMap declarations = [] :=
  List.flatMap_eq_nil_iff.mpr fun m hm => (h m hm).declarations_eq_nil

/-- A tree without contributions has none after its widths are fixed. -/
theorem declarations_normalizeValue {n : Node} (h : n.declarations = []) :
    n.normalizeValue.declarations = [] := by
  refine declarations_eq_nil_iff.mpr (All.normalizeValue (fun m hm => ?_)
    (declarations_eq_nil_iff.mp h))
  rw [declaration_eq_nil_iff] at hm ⊢
  rwa [normalizeValue_ty, normalizeValue_tag]

end Node

end ContractTyping
