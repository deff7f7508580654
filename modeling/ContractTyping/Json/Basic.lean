import ContractTyping.Decimal

/-!
JSON values as they stand in a text: the order and repetition of an object's keys is kept, whole
numbers are apart from numbers written with a sign, a fraction or an exponent, and a string whose
escapes name half of a surrogate pair is kept as a string that spells no text.
-/

namespace ContractTyping

inductive Number where
  /-- Plain digits. -/
  | natural (value : Nat)
  | decimal (value : Decimal)
  deriving DecidableEq, Repr, Inhabited

namespace Number

/-- Numbers are taken to be beyond double precision by their rounded product. -/
def overflows : Number → Bool
  | natural n => ({ whole := Nat.toDigits 10 n } : Decimal).productOverflows
  | decimal d => d.productOverflows

end Number

/-- The text of a string, if it spells one. -/
abbrev Spelling := Option String

inductive Json where
  | null
  | bool (value : Bool)
  | number (value : Number)
  | string (value : Spelling)
  | array (items : List Json)
  | object (entries : List (Spelling × Json))
  deriving Repr

namespace Json

instance : Inhabited Json := ⟨.null⟩

def str (s : String) : Json := string (some s)

def nat (n : Nat) : Json := number (.natural n)

/-- A 64-bit word as a plain number. -/
def word (w : UInt64) : Json := nat w.toNat

/-- An object with the given keys. -/
def obj (entries : List (String × Json)) : Json := object (entries.map fun (k, v) => (some k, v))

def string? : Json → Option String
  | string s => s
  | _ => none

def bool? : Json → Option Bool
  | bool b => some b
  | _ => none

def word? : Json → Option UInt64
  | number (.natural n) => if n < UInt64.size then some (.ofNat n) else none
  | _ => none

def array? : Json → Option (List Json)
  | array items => some items
  | _ => none

/-- Reads null as absence. -/
def optional (read : Json → Option α) : Json → Option (Option α)
  | null => some none
  | j => (read j).map some

mutual

/-- Every string and key spells a text and every number is within double precision. -/
def isFaithful : Json → Bool
  | null => true
  | bool _ => true
  | number n => !n.overflows
  | string s => s.isSome
  | array items => areFaithful items
  | object entries => entriesFaithful entries

def areFaithful : List Json → Bool
  | [] => true
  | j :: js => j.isFaithful && areFaithful js

def entriesFaithful : List (Spelling × Json) → Bool
  | [] => true
  | (k, j) :: rest => k.isSome && j.isFaithful && entriesFaithful rest

end

@[simp]
theorem string?_str (s : String) : (str s).string? = some s := rfl

@[simp]
theorem word?_word (w : UInt64) : (word w).word? = some w := by
  have h : w.toNat < UInt64.size := UInt64.toNat_lt_size w
  simp [word, nat, word?, h]

end Json

end ContractTyping
