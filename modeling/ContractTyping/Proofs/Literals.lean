import ContractTyping.Proofs.Rewriting

/-!
Literals and the types that they name. Fixing the widths of a literal and reading its type are two
walks over the same tree, which have to agree on what is a single literal and what is a sequence.
Main statements: `Node.literalType_normalizeValue`, the widths may as well be fixed in the type; and
`Node.normalizeValue_commutes`, which also says what fixing them leaves alone.
-/

namespace ContractTyping

/-! ## Names in types -/

namespace Ty

mutual

/-- The type with one name in the place of another, at every depth. What a structure is called
stays. -/
def rename (old new : String) : Ty → Ty
  | unknown => unknown
  | named name => named (if name = old then new else name)
  | list items => list (renameList old new items)
  | function params none => function (renameList old new params) none
  | function params (some returns) =>
    function (renameList old new params) (some (rename old new returns))
  | struct name fields => struct name (renameList old new fields)

def renameList (old new : String) : List Ty → List Ty
  | [] => []
  | t :: ts => rename old new t :: renameList old new ts

end

theorem renameList_eq_map (old new : String) (ts : List Ty) :
    renameList old new ts = ts.map (rename old new) := by
  induction ts with
  | nil => rfl
  | cons t ts ih => simp [renameList, ih]

theorem rename_list (old new : String) (items : List Ty) :
    (list items).rename old new = list (items.map (rename old new)) := by
  rw [rename, renameList_eq_map]

/-- The type with the two generic integers replaced by those of fixed width. -/
def fixWidths (t : Ty) : Ty := (t.rename "int" "int256").rename "uint" "uint256"

theorem fixWidths_list (items : List Ty) : (list items).fixWidths = list (items.map fixWidths) := by
  rw [fixWidths, rename_list, rename_list, List.map_map]
  rfl

theorem fixWidths_named (s : String) : (named s).fixWidths = named (fixedWidth s) := by
  simp only [fixWidths, rename, fixedWidth]
  by_cases int : s = "int"
  · simp [int]
  · simp [int]

end Ty

namespace Node

/-! ## Reading the type -/

theorem literalType_normalizeValue (v : Node) :
    v.normalizeValue.literalType = v.literalType.fixWidths := by
  induction v using induction_on_children with
  | step v ih =>
    by_cases single : v.children = []
    · have leaf : v.isLeaf = true := by simp [isLeaf, single]
      rw [literalType_normalizeValue_of_leaf single, literalType_of_isLeaf leaf, Ty.fixWidths_named]
    · rw [literalType_normalizeValue_of_children single, literalType_of_children single,
        Ty.fixWidths_list, List.map_map]
      exact congrArg Ty.list (List.map_congr_left ih)

/-! ## What changes -/

/-- The second node is the first with its width fixed: a childless node that names a generic integer
names the one of fixed width instead, and all else is the same. -/
structure WidthFixed (m out : Node) : Prop where
  tag : out.tag = m.tag
  count : out.children.length = m.children.length
  ty : out.ty = m.ty
  context : out.context = m.context
  error : out.error = m.error
  done : out.done = m.done
  span : out.span = m.span
  sequence : m.children ≠ [] → out.payload = m.payload
  int : m.children = [] → m.payload = some "int" → out.payload = some "int256"
  uint : m.children = [] → m.payload = some "uint" → out.payload = some "uint256"
  other : m.payload ≠ some "int" → m.payload ≠ some "uint" → out.payload = m.payload

theorem map_fixedWidth_of_ne {payload : Option String} (int : payload ≠ some "int")
    (uint : payload ≠ some "uint") : payload.map fixedWidth = payload := by
  cases payload with
  | none => rfl
  | some s =>
    have int' : s ≠ "int" := fun same => int (congrArg some same)
    have uint' : s ≠ "uint" := fun same => uint (congrArg some same)
    simp [fixedWidth, int', uint']

theorem widthFixed_normalizeValue (m : Node) : m.WidthFixed m.normalizeValue where
  tag := m.normalizeValue_tag
  count := by rw [normalizeValue_children, List.length_map]
  ty := m.normalizeValue_ty
  context := m.normalizeValue_context
  error := m.normalizeValue_error
  done := m.normalizeValue_done
  span := m.normalizeValue_span
  sequence inner := by rw [normalizeValue_payload, if_neg inner]
  int single generic := by
    rw [normalizeValue_payload, if_pos single, generic]
    rfl
  uint single generic := by
    rw [normalizeValue_payload, if_pos single, generic]
    rfl
  other int uint := by
    rw [normalizeValue_payload, map_fixedWidth_of_ne int uint, ite_self]

/-- **Widths may be fixed in a literal or in its type.** To fix the widths of a literal twice is to
fix them once; at every position the generic integers of childless nodes change and nothing else;
and the literal then names the type it named before, with the generic integers replaced throughout.
-/
theorem normalizeValue_commutes (v : Node) :
    v.normalizeValue.normalizeValue = v.normalizeValue ∧
      (∀ path, Option.Rel WidthFixed (v.descendant? path) (v.normalizeValue.descendant? path)) ∧
      v.normalizeValue.literalType =
        (v.literalType.rename "int" "int256").rename "uint" "uint256" := by
  refine ⟨v.normalizeValue_idem, fun path => ?_, v.literalType_normalizeValue⟩
  rw [descendant?_normalizeValue]
  cases v.descendant? path with
  | none => exact .none
  | some m => exact .some m.widthFixed_normalizeValue

end Node

end ContractTyping
