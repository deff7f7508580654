import ContractTyping.Proofs.Everywhere
import ContractTyping.Proofs.Failures
import ContractTyping.Proofs.Rewriting

/-!
Reports of missing children. A report that a rule writes is true of the node at that moment, and
nothing that happens later to the node or to its parents makes it false. Main statements:
`Engine.checkUnit_missingChildren`, when every report of a finished unit is right; and
`Engine.checkUnit_missingChild_untrue`, an import whose report is not.
-/

namespace ContractTyping

/-! ## Fixing widths -/

namespace Node

theorem blamed_normalizeValue (m : Node) : m.normalizeValue.blamed = m.blamed.normalizeValue := by
  unfold blamed
  rw [normalizeValue_tag, normalizeValue_children, List.length_map]
  split
  · cases m.children <;> rfl
  · rfl

theorem lacksSymbol_normalizeValue (m : Node) :
    m.normalizeValue.LacksSymbol ↔ m.LacksSymbol := by
  simp only [LacksSymbol, normalizeValue_tag, normalizeValue_children, List.length_map,
    descendant?_normalizeValue, ne_eq, Option.map_eq_none_iff]

theorem Truthful.normalizeValue {m : Node} (h : m.Truthful) : m.normalizeValue.Truthful := by
  intro tag index span reported
  rw [normalizeValue_error] at reported
  rw [blamed_normalizeValue, normalizeValue_tag, normalizeValue_span, normalizeValue_children,
    List.length_map, lacksSymbol_normalizeValue]
  exact h tag index span reported

end Node

namespace Engine

variable {e : Engine}

/-- Only visits write reports, on nodes that had none before. -/
theorem establishes_truthful (he : e.rules = []) :
    e.Establishes Node.Unannotated Node.Truthful where
  inside h hm := h.inside hm
  untouched h := Node.truthful_of_no_error h.self.2.1
  root expected h := by
    rintro out ⟨env, rfl⟩
    exact truthful_visit he h.self.2.1
  named ty h hc :=
    Node.truthful_of_no_error (h.child (Node.mem_of_nameChild? hc)).self.2.1
  normalized := Node.Truthful.normalizeValue
  made _ error := Node.truthful_of_no_error error
  paramBlock raw := .bind fun _ _ => .bind fun _ _ => .pure (Node.truthful_of_no_error rfl)
  bodyBlock raw guards _ :=
    .bind fun _ _ => .bind fun _ _ => .bind fun _ _ => .pure (Node.truthful_of_no_error rfl)

/-- **Reports of missing children.** Every such report in a finished unit has the kind and the span
of the node that it blames. That node has fewer children than the report asks for, unless the report
is on an import whose first child has a second part while its first part lacks the symbol; for such
an import it is wrong. -/
theorem checkUnit_missingChildren (config : Config) (tree : Node) (hu : tree.Unannotated) :
    ∀ m ∈ (checkUnit { config } tree).value.nodes, ∀ tag index span,
      m.error = some (.missingChild tag index span) →
        m.blamed.tag.name = tag ∧ m.blamed.span = span ∧
          (m.blamed.children.length < index.toNat ↔ ¬ m.LacksSymbol) := by
  have everywhere := everywhere_visit (e := { config }) rfl (establishes_truthful rfl) tree
    (some .void) hu (fun _ h => h) (.inr fun _ h => h)
  have fresh : (Env.ofConfig config).Stores (Node.All Node.Truthful) :=
    ⟨List.forall_mem_nil _, List.forall_mem_nil _⟩
  exact (everywhere _ fresh).1

/-- A unit with one import. -/
def importUnit (decl : Node) : Node :=
  { tag := .source, children := [{ tag := .importList, children := [decl] }] }

/-- An import whose first child has the given parts. -/
def importWith (parts : List Node) : Node :=
  { tag := .importDecl
    children := [
      { tag := .other "ImportName", children := parts },
      .leaf .text "token.sol", .leaf .text "0x1"] }

/-- Without a short name. -/
def unnamedImport : Node :=
  importWith [{ tag := .other "Name", children := [.leaf .text "Token"] }]

/-- With a short name, and without a symbol below the first part. -/
def symbollessImport : Node := importWith [.leaf (.other "Name") "Token", .leaf .text "T"]

/-- Without a second part, the report that it is missing is right. -/
theorem checkUnit_missingChildren_unnamed :
    (importUnit unnamedImport).Unannotated ∧
    ∃ m ∈ (checkUnit {} (importUnit unnamedImport)).value.nodes,
      m.error = some (.missingChild "ImportName" 2 {}) ∧
      m.blamed.tag.name = "ImportName" ∧ m.blamed.children.length < 2 := by
  have blank : (importUnit unnamedImport).Unannotated := by decide
  have failed : unnamedImport.fail (.missingChild "ImportName" 2 {}) ∈
      (checkUnit {} (importUnit unnamedImport)).value.nodes := by decide
  obtain ⟨tag, -, count⟩ := checkUnit_missingChildren {} _ blank _ failed _ _ _ rfl
  exact ⟨blank, _, failed, rfl, tag, count.mpr (by decide)⟩

/-- Both parts are there, and the report still says that the second is missing. -/
theorem checkUnit_missingChild_untrue :
    (importUnit symbollessImport).Unannotated ∧
    ∃ m ∈ (checkUnit {} (importUnit symbollessImport)).value.nodes,
      m.error = some (.missingChild "ImportName" 2 {}) ∧
      m.tag = .importDecl ∧ m.children.length = 3 ∧
      ∃ names, m.children.head? = some names ∧ names.tag.name = "ImportName" ∧
        ¬ names.children.length < 2 :=
  ⟨by decide, symbollessImport.fail (.missingChild "ImportName" 2 {}), by decide, rfl, rfl, rfl, _,
    rfl, rfl, by decide⟩

end Engine

end ContractTyping
