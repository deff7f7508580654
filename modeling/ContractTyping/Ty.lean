import ContractTyping.Text.Quoted

/-!
Types that the pass infers for nodes and binds to names. They compare structurally.
-/

namespace ContractTyping

inductive Ty where
  /-- Stands in for a part that could not be resolved, so that arities stay intact. -/
  | unknown
  | named (name : String)
  | list (items : List Ty)
  | function (params : List Ty) (returns : Option Ty)
  | struct (name : String) (fields : List Ty)
  deriving Repr

namespace Ty

instance : Inhabited Ty := ⟨.unknown⟩

mutual

def decEq : (a b : Ty) → Decidable (a = b)
  | unknown, unknown => isTrue rfl
  | named a, named b =>
    if h : a = b then isTrue (h ▸ rfl) else isFalse fun e => h (Ty.named.inj e)
  | list as, list bs =>
    match decEqList as bs with
    | isTrue h => isTrue (h ▸ rfl)
    | isFalse h => isFalse fun e => h (Ty.list.inj e)
  | function ps r, function qs s =>
    match decEqList ps qs, decEqOption r s with
    | isTrue h, isTrue k => isTrue (h ▸ k ▸ rfl)
    | isFalse h, _ => isFalse fun e => h (Ty.function.inj e).1
    | _, isFalse k => isFalse fun e => k (Ty.function.inj e).2
  | struct a as, struct b bs =>
    match decEqList as bs with
    | isTrue h =>
      if k : a = b then isTrue (h ▸ k ▸ rfl) else isFalse fun e => k (Ty.struct.inj e).1
    | isFalse h => isFalse fun e => h (Ty.struct.inj e).2
  | unknown, named _ | unknown, list _ | unknown, function _ _ | unknown, struct _ _
  | named _, unknown | named _, list _ | named _, function _ _ | named _, struct _ _
  | list _, unknown | list _, named _ | list _, function _ _ | list _, struct _ _
  | function _ _, unknown | function _ _, named _ | function _ _, list _ | function _ _, struct _ _
  | struct _ _, unknown | struct _ _, named _ | struct _ _, list _ | struct _ _, function _ _ =>
    isFalse nofun

def decEqList : (as bs : List Ty) → Decidable (as = bs)
  | [], [] => isTrue rfl
  | [], _ :: _ | _ :: _, [] => isFalse nofun
  | a :: as, b :: bs =>
    match decEq a b, decEqList as bs with
    | isTrue h, isTrue k => isTrue (h ▸ k ▸ rfl)
    | isFalse h, _ => isFalse fun e => h (List.cons.inj e).1
    | _, isFalse k => isFalse fun e => k (List.cons.inj e).2

def decEqOption : (a b : Option Ty) → Decidable (a = b)
  | none, none => isTrue rfl
  | none, some _ | some _, none => isFalse nofun
  | some a, some b =>
    match decEq a b with
    | isTrue h => isTrue (h ▸ rfl)
    | isFalse h => isFalse fun e => h (Option.some.inj e)

end

instance : DecidableEq Ty := decEq

def void : Ty := named "void"
def bool : Ty := named "bool"
def int256 : Ty := named "int256"
def string : Ty := named "string"
def address : Ty := named "address"

/-- How an unresolved type is written. -/
def unknownName : String := "\x7bunknown\x7d"

/-- The type a name stands for. -/
def ofName (s : String) : Ty := if s = unknownName then unknown else named s

def isNamed (name : String) : Ty → Bool
  | named n => n == name
  | _ => false

def isVoid (t : Ty) : Bool := t.isNamed "void"

/-- A function type with a result and exactly `arity` parameters, taken apart. -/
def asMapping (arity : Nat) : Ty → Option (List Ty × Ty)
  | function params (some returns) => if params.length = arity then some (params, returns) else none
  | _ => none

/-- The parameters of a function type. -/
def params : Ty → List Ty
  | function ps _ => ps
  | _ => []

/-- A type that may be missing counts as unresolved. -/
def orUnknown (t : Option Ty) : Ty := t.getD unknown

/-- A node adopts the type expected of it, and `void` when nothing is expected. -/
def orVoid (t : Option Ty) : Ty := t.getD void

mutual

/-- The type as users write it; a structure is written as its name. -/
def render : Ty → String
  | unknown => unknownName
  | named name => name
  | list items => "[" ++ ", ".intercalate (renderList items) ++ "]"
  | function params none => "(" ++ ", ".intercalate (renderList params) ++ ")"
  | function params (some returns) =>
    "(" ++ ", ".intercalate (renderList params) ++ ") -> " ++ returns.render
  | struct name _ => name

def renderList : List Ty → List String
  | [] => []
  | t :: ts => t.render :: renderList ts

end

mutual

/-- The type spelled out with every part labelled. -/
def describe : Ty → String
  | unknown => "Unknown"
  | named name => "Named(" ++ quoted name ++ ")"
  | list items => "List([" ++ ", ".intercalate (describeList items) ++ "])"
  | function params none =>
    "Function \x7b params: [" ++ ", ".intercalate (describeList params) ++ "], returns: None \x7d"
  | function params (some returns) =>
    "Function \x7b params: [" ++ ", ".intercalate (describeList params) ++ "], returns: Some("
      ++ returns.describe ++ ") \x7d"
  | struct name fields =>
    "Struct \x7b name: " ++ quoted name ++ ", fields: ["
      ++ ", ".intercalate (describeList fields) ++ "] \x7d"

def describeList : List Ty → List String
  | [] => []
  | t :: ts => t.describe :: describeList ts

end

theorem isNamed_iff {name : String} {t : Ty} : t.isNamed name = true ↔ t = named name := by
  cases t <;> simp [isNamed]

theorem asMapping_eq_some_iff {arity : Nat} {t : Ty} {ps : List Ty} {r : Ty} :
    t.asMapping arity = some (ps, r) ↔ t = function ps (some r) ∧ ps.length = arity := by
  unfold asMapping
  split
  · grind
  · constructor
    · nofun
    · rintro ⟨rfl, _⟩
      simp_all

end Ty

end ContractTyping
