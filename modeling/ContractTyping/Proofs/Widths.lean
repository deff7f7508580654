import ContractTyping.Proofs.Vocabulary

/-!
Integers of generic width. A literal may name `int` or `uint`, but its width is fixed before it is
read as a type, and no other step of the pass makes up a name. Main statements:
`Node.fixedWidth_literalType`, a literal names types of fixed width; and
`Engine.checkUnit_fixedWidth`, so do the tree that comes back and the scope.
-/

namespace ContractTyping

/-- No integer of generic width stands in the type, at any depth. -/
def Ty.FixedWidth (t : Ty) : Prop := "int" ∉ t.names ∧ "uint" ∉ t.names

instance (t : Ty) : Decidable t.FixedWidth := inferInstanceAs (Decidable (_ ∧ _))

theorem Ty.fixedWidth_iff {t : Ty} : t.FixedWidth ↔ ∀ s ∈ t.names, s ≠ "int" ∧ s ≠ "uint" := by
  constructor
  · rintro ⟨int, uint⟩ s hs
    constructor
    · rintro rfl
      exact int hs
    · rintro rfl
      exact uint hs
  · intro h
    exact ⟨fun spelled => (h _ spelled).1 rfl, fun spelled => (h _ spelled).2 rfl⟩

theorem fixedWidth_ne (s : String) : fixedWidth s ≠ "int" ∧ fixedWidth s ≠ "uint" := by
  unfold fixedWidth
  split
  · decide
  · rename_i int
    split
    · decide
    · rename_i uint
      exact ⟨int, uint⟩

theorem Ty.fixedWidth_list {items : List Ty} (h : ∀ t ∈ items, t.FixedWidth) :
    (list items).FixedWidth := by
  simp only [FixedWidth, names_list, List.mem_flatMap, not_exists, not_and]
  exact ⟨fun t ht => (h t ht).1, fun t ht => (h t ht).2⟩

theorem Node.fixedWidth_literalType (v : Node) : v.normalizeValue.literalType.FixedWidth := by
  induction v using induction_on_children with
  | step v ih =>
    by_cases single : v.children = []
    · obtain ⟨int, uint⟩ := fixedWidth_ne v.text
      rw [literalType_normalizeValue_of_leaf single]
      simp [Ty.FixedWidth, int.symm, uint.symm]
    · rw [literalType_normalizeValue_of_children single]
      apply Ty.fixedWidth_list
      intro t ht
      obtain ⟨c, hmem, rfl⟩ := List.mem_map.mp ht
      exact ih c hmem

/-- All kinds, and every name but those of integers of generic width. -/
def Vocabulary.fixedWidth : Vocabulary where
  kind _ := True
  name s := s ≠ "int" ∧ s ≠ "uint"
  admits _ := True
  known _ _ := trivial
  void := by decide
  bool := by decide
  int256 := by decide
  literal _ v _ := Ty.fixedWidth_iff.mp v.fixedWidth_literalType

theorem Ty.within_fixedWidth_iff {t : Ty} : t.Within .fixedWidth ↔ t.FixedWidth :=
  fixedWidth_iff.symm

theorem Node.Unannotated.within_fixedWidth {n : Node} (h : n.Unannotated) :
    n.Within .fixedWidth := by
  intro m hm
  simp [(h m hm).1, Vocabulary.fixedWidth]

namespace Engine

/-- **Widths are fixed.** From a prelude of types of fixed width, no type of the tree that comes
back and no type in the final scope holds an integer of generic width. -/
theorem checkUnit_fixedWidth (config : Config) (tree : Node)
    (prelude : ∀ b ∈ config.prelude, b.2.FixedWidth) (blank : tree.Unannotated) :
    ((checkUnit { config } tree).value.All fun m => ∀ ty ∈ m.ty, ty.FixedWidth) ∧
      ∀ b ∈ (checkUnit { config } tree).env.scope, b.2.FixedWidth := by
  have scope : ∀ b ∈ config.prelude, b.2.Within .fixedWidth :=
    fun b hb => Ty.within_fixedWidth_iff.mpr (prelude b hb)
  obtain ⟨value, env⟩ := speaks_checkUnit scope blank.within_fixedWidth fun _ _ => trivial
  constructor
  · intro m hm ty hty
    exact Ty.within_fixedWidth_iff.mp ((value m hm).2 ty hty)
  · intro b hb
    exact Ty.within_fixedWidth_iff.mp (env.scope b hb)

/-- A list of generic integers is assumed; its name is then a field of a structure, a parameter and
the result of a function. -/
def genericUnit : Node :=
  { tag := .source
    children := [
      { tag := .structDefine
        children := [.leaf .text "Rates",
          { tag := .pair, children := [.leaf .text "all", .leaf .nameExpr "rates"] }] },
      { tag := .functionDecl
        children := [
          .leaf .nameExpr "first",
          { tag := .block
            children := [
              { tag := .functionParam
                children := [{ tag := .fdPair, children := [.leaf .nameExpr "rates"] }] },
              { tag := .returnStatement, children := [.leaf .raw "rates"] }] }] },
      { tag := .assumeDecls
        children := [
          { tag := .assumeDecl
            children := [
              .leaf .nameExpr "rates",
              { tag := .other "List", children := [.leaf .text "int", .leaf .text "uint"] }] }] }] }

/-- Settings with an address in scope. -/
def ownerSettings : Config := { prelude := [("owner", .address)] }

theorem checkUnit_fixedWidth_generic :
    (∀ b ∈ ownerSettings.prelude, b.2.FixedWidth) ∧ genericUnit.Unannotated ∧
      ((checkUnit { config := ownerSettings } genericUnit).value.All
        fun m => ∀ ty ∈ m.ty, ty.FixedWidth) ∧
      (∀ b ∈ (checkUnit { config := ownerSettings } genericUnit).env.scope, b.2.FixedWidth) ∧
      (checkUnit { config := ownerSettings } genericUnit).env.lookup? "rates" =
        some (.list [.int256, .named "uint256"]) := by
  have prelude : ∀ b ∈ ownerSettings.prelude, b.2.FixedWidth := by decide
  have blank : genericUnit.Unannotated := by decide
  obtain ⟨types, scope⟩ := checkUnit_fixedWidth ownerSettings genericUnit prelude blank
  exact ⟨prelude, blank, types, scope, rfl⟩

end Engine

end ContractTyping
