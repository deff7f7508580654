/-!
Hexadecimal digits. Writing uses lower case; reading takes either case.
-/

namespace ContractTyping.Hex

/-- The digit of a value below sixteen. -/
def digit (n : Nat) : Char :=
  if n < 10 then Char.ofNat (48 + n) else Char.ofNat (87 + n)

def value? (c : Char) : Option Nat :=
  if '0' ≤ c ∧ c ≤ '9' then some (c.toNat - 48)
  else if 'a' ≤ c ∧ c ≤ 'f' then some (c.toNat - 87)
  else if 'A' ≤ c ∧ c ≤ 'F' then some (c.toNat - 55)
  else none

/-- The number that a run of digits spells, the first digit leading. -/
def number? (cs : List Char) : Option Nat :=
  cs.foldlM (fun n c => (value? c).map (16 * n + ·)) 0

/-- The character of a code point that is not a surrogate. -/
def charOf? (n : Nat) : Option Char := if n.isValidChar then some (Char.ofNat n) else none

/-- The four lowest digits of a number. -/
def lowest4 (n : Nat) : List Char :=
  [digit (n / 4096 % 16), digit (n / 256 % 16), digit (n / 16 % 16), digit (n % 16)]

/-- A number with at least four digits. -/
def padded (n : Nat) : List Char :=
  if n < 65536 then lowest4 n else Nat.toDigits 16 (n / 65536) ++ lowest4 n

theorem value?_digit {n : Nat} (h : n < 16) : value? (digit n) = some n := by
  revert h n
  decide

theorem number?_lowest4 (n : Nat) : number? (lowest4 n) = some (n % 65536) := by
  have h (k : Nat) : value? (digit (k % 16)) = some (k % 16) :=
    value?_digit (Nat.mod_lt _ (by decide))
  simp [number?, lowest4, List.foldlM, h]
  omega

end ContractTyping.Hex
