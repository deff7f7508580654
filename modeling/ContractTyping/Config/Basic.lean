import ContractTyping.Ty

/-!
Settings of the pass. Every setting has a default; the prelude keeps the order in which its names
were first bound.
-/

namespace ContractTyping

structure Config where
  /-- The display name that marks a function as the constructor. -/
  constructorName : String := "constructor"
  /-- The right-hand side of guards. -/
  zeroAddress : String := "address(0)"
  /-- The operator of guards. -/
  guardOperator : String := "NOT="
  /-- What the generated names of enumerations start with. -/
  enumStem : String := "Enum"
  /-- Whether address parameters are guarded at all. -/
  synthesizeGuards : Bool := true
  /-- Names that are bound before a source is read. -/
  prelude : List (String × Ty) := []
  deriving DecidableEq, Repr, Inhabited

/-- One setting with its value. -/
inductive Setting where
  | constructorName (value : String)
  | zeroAddress (value : String)
  | guardOperator (value : String)
  | enumStem (value : String)
  | synthesizeGuards (value : Bool)
  | prelude (name : String) (ty : Ty)
  deriving DecidableEq, Repr

namespace Config

/-- Binds a name in place if it is bound already, and at the end otherwise. -/
def bindName (name : String) (ty : Ty) : List (String × Ty) → List (String × Ty)
  | [] => [(name, ty)]
  | (k, t) :: rest => if k = name then (k, ty) :: rest else (k, t) :: bindName name ty rest

def set (c : Config) : Setting → Config
  | .constructorName value => { c with constructorName := value }
  | .zeroAddress value => { c with zeroAddress := value }
  | .guardOperator value => { c with guardOperator := value }
  | .enumStem value => { c with enumStem := value }
  | .synthesizeGuards value => { c with synthesizeGuards := value }
  | .prelude name ty => { c with prelude := bindName name ty c.prelude }

def describeBinding (binding : String × Ty) : String :=
  quoted binding.1 ++ ": " ++ binding.2.describe

/-- All settings, spelled out. -/
def describe (c : Config) : String :=
  "BuildConfig \x7b constructor_name: " ++ quoted c.constructorName
    ++ ", zero_address_literal: " ++ quoted c.zeroAddress
    ++ ", guard_operator: " ++ quoted c.guardOperator
    ++ ", enum_name_prefix: " ++ quoted c.enumStem
    ++ ", synthesize_guards: " ++ (if c.synthesizeGuards then "true" else "false")
    ++ ", prelude: \x7b" ++ ", ".intercalate (c.prelude.map describeBinding) ++ "\x7d \x7d"

theorem lookup_bindName (name x : String) (ty : Ty) (bindings : List (String × Ty)) :
    (bindName name ty bindings).lookup x = if x = name then some ty else bindings.lookup x := by
  induction bindings with
  | nil =>
    by_cases h : x = name
    · simp [bindName, h]
    · simp [bindName, List.lookup_cons, h, beq_eq_false_iff_ne.2 h]
  | cons b rest ih =>
    obtain ⟨k, t⟩ := b
    by_cases hk : k = name
    · subst hk
      by_cases h : x = k
      · simp [bindName, h]
      · simp [bindName, List.lookup_cons, h, beq_eq_false_iff_ne.2 h]
    · by_cases h : x = k
      · subst h
        simp [bindName, hk]
      · simp [bindName, hk, List.lookup_cons, beq_eq_false_iff_ne.2 h, ih]

end Config

end ContractTyping
