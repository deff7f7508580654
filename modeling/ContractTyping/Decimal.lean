/-!
Decimal numbers as they are written, and whether one is beyond double precision. There are two ways
to tell. `overflows` compares the number itself with the bound. `productOverflows` rounds twice: it
multiplies the rounded leading digits by a rounded power of ten, so close to the bound it may err in
either direction.
-/

namespace ContractTyping

/-- Digits before and after the point, and the exponent of ten that follows them. -/
structure Decimal where
  negative : Bool := false
  whole : List Char
  fraction : List Char := []
  exponent : Int := 0
  deriving DecidableEq, Repr, Inhabited

namespace Decimal

def digit (d : Char) : Nat := d.toNat - 48

def digitsValue (ds : List Char) : Nat := ds.foldl (fun n d => 10 * n + digit d) 0

/-- The least magnitude that rounds to infinity in double precision. -/
def overflowBound : Nat := Nat.pow 2 1024 - Nat.pow 2 970

/-! ## The number itself -/

/-- Whether `n · 10 ^ exponent` reaches the bound. Exponents that settle the matter by the number of
digits alone are settled first. -/
def reachesBound (n : Nat) (exponent : Int) : Bool :=
  let width : Int := ((toString n).length : Nat)
  if n = 0 then false
  else if width + exponent < 300 then false
  else if width + exponent > 400 then true
  else match exponent with
    | .ofNat e => decide (overflowBound ≤ n * Nat.pow 10 e)
    | .negSucc e => decide (overflowBound * Nat.pow 10 (e + 1) ≤ n)

def overflows (d : Decimal) : Bool :=
  reachesBound (digitsValue (d.whole ++ d.fraction)) (d.exponent - d.fraction.length)

/-! ## The rounded product -/

/-- The nearest number of at most 53 significant bits; a tie goes to the even one. -/
def roundDouble (n : Nat) : Nat :=
  if n < Nat.pow 2 53 then n
  else
    let unit := Nat.pow 2 (n.log2 - 52)
    let quotient := n / unit
    let rest := n % unit
    if unit < 2 * rest ∨ (unit = 2 * rest ∧ quotient % 2 = 1) then (quotient + 1) * unit
    else quotient * unit

/-- Whether a number still fits a 64-bit word after one more digit. -/
def takesDigit (n : Nat) (d : Char) : Bool := decide (10 * n + digit d < Nat.pow 2 64)

/-- Reads on through the whole part. From the first digit that does not fit, digits only raise the
exponent. -/
def leadingWhole : Nat → List Char → Nat × Int
  | n, [] => (n, 0)
  | n, d :: ds =>
    if takesDigit n d then leadingWhole (10 * n + digit d) ds else (n, (ds.length + 1 : Nat))

/-- Reads on through the fraction. From the first digit that does not fit, digits are dropped. -/
def leadingFraction : Nat → Int → List Char → Nat × Int
  | n, e, [] => (n, e)
  | n, e, d :: ds =>
    if takesDigit n d then leadingFraction (10 * n + digit d) (e - 1) ds else (n, e)

/-- The leading digits that fit a 64-bit word, and the exponent of ten that goes with them. -/
def leading (d : Decimal) : Nat × Int :=
  let (n, e) := leadingWhole 0 d.whole
  let (n, e) := leadingFraction n e d.fraction
  (n, e + d.exponent)

/-- The largest power of ten that is finite in double precision. -/
def maxPower : Nat := 308

def productOverflows (d : Decimal) : Bool :=
  match d.leading with
  | (n, .ofNat e) =>
    n != 0 && (decide (maxPower < e)
      || decide (overflowBound ≤ roundDouble n * roundDouble (Nat.pow 10 e)))
  | (_, .negSucc _) => false

end Decimal

end ContractTyping
