import ContractTyping.Json.Basic
import ContractTyping.Text.Hex

/-!
Reading JSON text. Every function takes characters and returns what it read with the characters
left.
-/

namespace ContractTyping.Json.Reader

def isBlank (c : Char) : Bool := c == ' ' || c == '\n' || c == '\t' || c == '\r'

def skipBlanks (cs : List Char) : List Char := cs.dropWhile isBlank

/-! ## Strings -/

def shortEscape? : Char → Option Char
  | '"' => some '"'
  | '\\' => some '\\'
  | '/' => some '/'
  | 'b' => some '\x08'
  | 'f' => some '\x0c'
  | 'n' => some '\n'
  | 'r' => some '\r'
  | 't' => some '\t'
  | _ => none

/-- The code units up to the closing quote. A character stands for itself as one unit. -/
def units : List Char → Option (List Nat × List Char)
  | [] => none
  | '"' :: rest => some ([], rest)
  | '\\' :: 'u' :: a :: b :: c :: d :: rest => do
    let unit ← Hex.number? [a, b, c, d]
    let (more, rest) ← units rest
    return (unit :: more, rest)
  | '\\' :: e :: rest => do
    let c ← shortEscape? e
    let (more, rest) ← units rest
    return (c.toNat :: more, rest)
  | c :: rest => do
    guard (32 ≤ c.toNat ∧ c ≠ '\\')
    let (more, rest) ← units rest
    return (c.toNat :: more, rest)

def isHighSurrogate (n : Nat) : Bool := decide (0xD800 ≤ n ∧ n < 0xDC00)

def isLowSurrogate (n : Nat) : Bool := decide (0xDC00 ≤ n ∧ n < 0xE000)

/-- The characters that units spell. A surrogate has to stand in a pair, the high one first. -/
def spell : List Nat → Option (List Char)
  | [] => some []
  | [n] => if isHighSurrogate n || isLowSurrogate n then none else some [Char.ofNat n]
  | n :: m :: rest =>
    if isHighSurrogate n then
      if isLowSurrogate m then
        (spell rest).map (Char.ofNat (0x10000 + 0x400 * (n - 0xD800) + (m - 0xDC00)) :: ·)
      else none
    else if isLowSurrogate n then none
    else (spell (m :: rest)).map (Char.ofNat n :: ·)

/-- A string after its opening quote. -/
def string (cs : List Char) : Option (Spelling × List Char) :=
  (units cs).map fun (ns, rest) => ((spell ns).map String.ofList, rest)

/-! ## Numbers -/

/-- One digit or more. -/
def digits (cs : List Char) : Option (List Char × List Char) :=
  match cs.takeWhile Char.isDigit with
  | [] => none
  | ds => some (ds, cs.dropWhile Char.isDigit)

/-- Digits without a leading zero. -/
def whole : List Char → Option (List Char × List Char)
  | '0' :: rest => some (['0'], rest)
  | cs => digits cs

def fraction : List Char → Option (List Char × List Char)
  | '.' :: rest => digits rest
  | cs => some ([], cs)

def signedExponent : List Char → Option (Int × List Char)
  | '-' :: rest => (digits rest).map fun (ds, rest) => (-(Decimal.digitsValue ds : Int), rest)
  | '+' :: rest => (digits rest).map fun (ds, rest) => ((Decimal.digitsValue ds : Int), rest)
  | cs => (digits cs).map fun (ds, rest) => ((Decimal.digitsValue ds : Int), rest)

def exponent : List Char → Option (Option Int × List Char)
  | 'e' :: rest => (signedExponent rest).map fun (e, rest) => (some e, rest)
  | 'E' :: rest => (signedExponent rest).map fun (e, rest) => (some e, rest)
  | cs => some (none, cs)

def magnitude (negative : Bool) (cs : List Char) : Option (Number × List Char) := do
  let (ds, cs) ← whole cs
  let (fs, cs) ← fraction cs
  let (e, cs) ← exponent cs
  if negative = false ∧ fs = [] ∧ e = none then
    return (.natural (Decimal.digitsValue ds), cs)
  else
    return (.decimal ⟨negative, ds, fs, e.getD 0⟩, cs)

def number : List Char → Option (Number × List Char)
  | '-' :: rest => magnitude true rest
  | cs => magnitude false cs

/-! ## Values -/

mutual

/-- A value. Each nested value and each further element takes one unit of `fuel`. -/
def value : Nat → List Char → Option (Json × List Char)
  | 0, _ => none
  | fuel + 1, cs =>
    match skipBlanks cs with
    | '"' :: rest => (string rest).map fun (s, rest) => (.string s, rest)
    | '[' :: rest =>
      match skipBlanks rest with
      | ']' :: rest => some (.array [], rest)
      | rest => (elements fuel rest).map fun (js, rest) => (.array js, rest)
    | '\x7b' :: rest =>
      match skipBlanks rest with
      | '\x7d' :: rest => some (.object [], rest)
      | rest => (members fuel rest).map fun (es, rest) => (.object es, rest)
    | 'n' :: 'u' :: 'l' :: 'l' :: rest => some (.null, rest)
    | 't' :: 'r' :: 'u' :: 'e' :: rest => some (.bool true, rest)
    | 'f' :: 'a' :: 'l' :: 's' :: 'e' :: rest => some (.bool false, rest)
    | cs => (number cs).map fun (n, rest) => (.number n, rest)

/-- The elements of an array up to its closing bracket, at least one. -/
def elements : Nat → List Char → Option (List Json × List Char)
  | 0, _ => none
  | fuel + 1, cs => do
    let (j, rest) ← value fuel cs
    match skipBlanks rest with
    | ']' :: rest => return ([j], rest)
    | ',' :: rest =>
      let (js, rest) ← elements fuel rest
      return (j :: js, rest)
    | _ => none

/-- The entries of an object up to its closing brace, at least one. -/
def members : Nat → List Char → Option (List (Spelling × Json) × List Char)
  | 0, _ => none
  | fuel + 1, cs =>
    match skipBlanks cs with
    | '"' :: rest => do
      let (key, rest) ← string rest
      match skipBlanks rest with
      | ':' :: rest =>
        let (j, rest) ← value fuel rest
        match skipBlanks rest with
        | '\x7d' :: rest => return ([(key, j)], rest)
        | ',' :: rest =>
          let (es, rest) ← members fuel rest
          return ((key, j) :: es, rest)
        | _ => none
      | _ => none
    | _ => none

end

end Reader

/-- Reads a text that holds one value and blanks around it. -/
def read? (text : String) : Option Json :=
  let cs := text.toList
  match Reader.value (2 * cs.length + 2) cs with
  | some (j, rest) => if (Reader.skipBlanks rest).isEmpty then some j else none
  | none => none

end ContractTyping.Json
