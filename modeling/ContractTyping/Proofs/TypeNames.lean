import ContractTyping.Tag
import ContractTyping.Ty

/-!
Names that may be mistaken for others when types and kinds are written down. The name of an
unresolved type is reserved, so a type is readable when this name stands nowhere in it; a kind is
canonical when it is not an open kind that bears the name of a known one.
-/

namespace ContractTyping

namespace Ty

mutual

/-- The names that stand in a type, at any depth. What a structure is called is not among them. -/
def names : Ty → List String
  | unknown => []
  | named name => [name]
  | list items => namesList items
  | function params none => namesList params
  | function params (some returns) => namesList params ++ returns.names
  | struct _ fields => namesList fields

def namesList : List Ty → List String
  | [] => []
  | t :: ts => t.names ++ namesList ts

end

theorem namesList_eq_flatMap (ts : List Ty) : namesList ts = ts.flatMap names := by
  induction ts with
  | nil => rfl
  | cons t ts ih => simp [namesList, ih]

@[simp]
theorem names_unknown : unknown.names = [] := rfl

@[simp]
theorem names_named (s : String) : (named s).names = [s] := rfl

@[simp]
theorem names_list (items : List Ty) : (list items).names = items.flatMap names := by
  rw [names, namesList_eq_flatMap]

@[simp]
theorem names_function (params : List Ty) (returns : Option Ty) :
    (function params returns).names = params.flatMap names ++ returns.toList.flatMap names := by
  cases returns <;> simp [names, namesList_eq_flatMap]

@[simp]
theorem names_struct (name : String) (fields : List Ty) :
    (struct name fields).names = fields.flatMap names := by
  rw [names, namesList_eq_flatMap]

/-- The reserved name stands nowhere in the type. -/
def Readable (t : Ty) : Prop := unknownName ∉ t.names

instance (t : Ty) : Decidable t.Readable := inferInstanceAs (Decidable (_ ∉ _))

theorem readable_ofName (s : String) : (ofName s).Readable := by
  unfold ofName Readable
  by_cases h : s = unknownName
  · simp [h]
  · simp [h, Ne.symm h]

theorem ofName_eq_named {s : String} (h : (named s).Readable) : ofName s = named s := by
  have other : s ≠ unknownName := by
    rintro rfl
    simp [Readable] at h
  simp [ofName, other]

theorem readable_list {items : List Ty} : (list items).Readable ↔ ∀ t ∈ items, t.Readable := by
  simp [Readable]

theorem readable_function {params : List Ty} {returns : Option Ty} :
    (function params returns).Readable ↔
      (∀ t ∈ params, t.Readable) ∧ ∀ t ∈ returns, t.Readable := by
  simp [Readable]

theorem readable_struct {name : String} {fields : List Ty} :
    (struct name fields).Readable ↔ ∀ t ∈ fields, t.Readable := by
  simp [Readable]

end Ty

namespace Tag

/-- The kind is not an open one with the name of a known kind. -/
def Canonical (t : Tag) : Prop := t.isKnown = true ∨ ∀ k ∈ known, k.name ≠ t.name

instance (t : Tag) : Decidable t.Canonical := inferInstanceAs (Decidable (_ ∨ _))

theorem ofName_name_of_canonical {t : Tag} (h : t.Canonical) : ofName t.name = t := by
  rcases h with h | h
  · exact ofName_name h
  · have absent : known.find? (·.name == t.name) = none := by simpa using h
    cases t with
    | other s =>
      rw [ofName, absent]
      rfl
    | _ => exact absurd rfl (h _ ((isKnown_iff_mem _).mp rfl))

theorem canonical_ofName (s : String) : (ofName s).Canonical := by
  unfold Canonical
  cases found : known.find? (·.name == s) with
  | some k => simp [ofName, found, (isKnown_iff_mem k).mpr (List.mem_of_find?_eq_some found)]
  | none => exact .inr (by simpa [name_ofName] using found)

end Tag

end ContractTyping
