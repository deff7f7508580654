import ContractTyping.Text.Hex

/-!
Imported symbols written as plain identifiers: a marker, then each character's code point with at
least four hexadecimal digits. Reading takes four characters at a time, so it gives back a symbol
whose characters all fit four digits.
-/

namespace ContractTyping.ImportName

def marker : List Char := ['v', '_']

def encodeChars (cs : List Char) : List Char := marker ++ cs.flatMap fun c => Hex.padded c.toNat

/-- The number a group spells. A plus sign may lead its digits. -/
def groupNumber? : List Char → Option Nat
  | '+' :: digits => Hex.number? digits
  | digits => Hex.number? digits

def decodeGroups : List Char → Option (List Char)
  | [] => some []
  | a :: b :: c :: d :: rest => do
    let char ← (groupNumber? [a, b, c, d]).bind Hex.charOf?
    let chars ← decodeGroups rest
    return char :: chars
  | _ => none

def decodeChars : List Char → Option (List Char)
  | 'v' :: '_' :: groups => decodeGroups groups
  | _ => none

def encode (symbol : String) : String := String.ofList (encodeChars symbol.toList)

def decode? (name : String) : Option String := (decodeChars name.toList).map String.ofList

end ContractTyping.ImportName
