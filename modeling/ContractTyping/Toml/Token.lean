import ContractTyping.Decimal
import ContractTyping.Text.Hex

/-!
Lexical parts of TOML: blanks and comments, strings, numbers and date-times. Every function takes
characters and returns what it read with the characters left.
-/

namespace ContractTyping.Toml.Token

/-! ## Characters -/

def isBlank (c : Char) : Bool := c == ' ' || c == '\t'

def isCommentChar (c : Char) : Bool := c == '\t' || (32 ≤ c.toNat && c.toNat != 127)

def isBareKeyChar (c : Char) : Bool := c.isAlphanum || c == '-' || c == '_'

def isBasicChar (c : Char) : Bool := isCommentChar c && c != '"' && c != '\\'

def isLiteralChar (c : Char) : Bool := isCommentChar c && c != '\''

/-! ## Blanks, comments and line ends -/

def skipBlanks (cs : List Char) : List Char := cs.dropWhile isBlank

def newline? : List Char → Option (List Char)
  | '\n' :: rest => some rest
  | '\r' :: '\n' :: rest => some rest
  | _ => none

/-- The end of a line after blanks and a comment; the end of the text ends a line too. -/
def lineEnd? (cs : List Char) : Option (List Char) :=
  let cs := skipBlanks cs
  let cs := if cs.head? = some '#' then cs.dropWhile isCommentChar else cs
  if cs.isEmpty then some [] else newline? cs

/-- Skips blanks, line ends and comments, as inside an array. -/
def skipLines : (inComment : Bool) → List Char → List Char
  | _, [] => []
  | _, '\n' :: rest => skipLines false rest
  | _, '\r' :: '\n' :: rest => skipLines false rest
  | true, c :: rest => if isCommentChar c then skipLines true rest else c :: rest
  | false, c :: rest =>
    if isBlank c then skipLines false rest
    else if c = '#' then skipLines true rest
    else c :: rest

/-! ## Strings -/

def shortEscape? : Char → Option Char
  | 'b' => some '\x08'
  | 't' => some '\t'
  | 'n' => some '\n'
  | 'f' => some '\x0c'
  | 'r' => some '\r'
  | '"' => some '"'
  | '\\' => some '\\'
  | _ => none

def charOfHex? (cs : List Char) : Option Char := (Hex.number? cs).bind Hex.charOf?

/-- Puts a character, if there is one, before what was read. -/
def consChar (c : Option Char) (r : Option (List Char × List Char)) :
    Option (List Char × List Char) := do
  let c ← c
  let (cs, rest) ← r
  return (c :: cs, rest)

/-- A string on one line, after its quote. -/
def basic : List Char → Option (List Char × List Char)
  | [] => none
  | '"' :: rest => some ([], rest)
  | '\\' :: 'u' :: a :: b :: c :: d :: rest => consChar (charOfHex? [a, b, c, d]) (basic rest)
  | '\\' :: 'U' :: a :: b :: c :: d :: e :: f :: g :: h :: rest =>
    consChar (charOfHex? [a, b, c, d, e, f, g, h]) (basic rest)
  | '\\' :: e :: rest => consChar (shortEscape? e) (basic rest)
  | c :: rest => consChar (if isBasicChar c then some c else none) (basic rest)

/-- A string without escapes on one line, after its quote. -/
def literal : List Char → Option (List Char × List Char)
  | [] => none
  | '\'' :: rest => some ([], rest)
  | c :: rest => consChar (if isLiteralChar c then some c else none) (literal rest)

/-- Whether only blanks stand before the end of the line. -/
def endsLine (cs : List Char) : Bool := (newline? (skipBlanks cs)).isSome

/-- A string over several lines, after its quotes. Up to two quotes may stand before the closing
ones. While `trim` holds, blanks and line ends are dropped. -/
def multiBasic : (trim : Bool) → List Char → Option (List Char × List Char)
  | _, [] => none
  | _, '"' :: '"' :: '"' :: '"' :: '"' :: rest => some (['"', '"'], rest)
  | _, '"' :: '"' :: '"' :: '"' :: rest => some (['"'], rest)
  | _, '"' :: '"' :: '"' :: rest => some ([], rest)
  | _, '"' :: rest => consChar (some '"') (multiBasic false rest)
  | _, '\\' :: 'u' :: a :: b :: c :: d :: rest =>
    consChar (charOfHex? [a, b, c, d]) (multiBasic false rest)
  | _, '\\' :: 'U' :: a :: b :: c :: d :: e :: f :: g :: h :: rest =>
    consChar (charOfHex? [a, b, c, d, e, f, g, h]) (multiBasic false rest)
  | _, '\\' :: e :: rest =>
    if endsLine (e :: rest) then multiBasic true rest
    else consChar (shortEscape? e) (multiBasic false rest)
  | trim, '\r' :: '\n' :: rest =>
    if trim then multiBasic true rest else consChar (some '\n') (multiBasic false rest)
  | trim, c :: rest =>
    if trim && (isBlank c || c == '\n') then multiBasic true rest
    else consChar (if isBasicChar c || c == '\n' then some c else none) (multiBasic false rest)

/-- A string without escapes over several lines, after its quotes. -/
def multiLiteral : List Char → Option (List Char × List Char)
  | [] => none
  | '\'' :: '\'' :: '\'' :: '\'' :: '\'' :: rest => some (['\'', '\''], rest)
  | '\'' :: '\'' :: '\'' :: '\'' :: rest => some (['\''], rest)
  | '\'' :: '\'' :: '\'' :: rest => some ([], rest)
  | '\'' :: rest => consChar (some '\'') (multiLiteral rest)
  | '\r' :: '\n' :: rest => consChar (some '\n') (multiLiteral rest)
  | c :: rest =>
    consChar (if isLiteralChar c || c == '\n' then some c else none) (multiLiteral rest)

/-- A line end right after the opening quotes does not count. -/
def dropNewline (cs : List Char) : List Char := (newline? cs).getD cs

def string : List Char → Option (String × List Char)
  | '"' :: '"' :: '"' :: rest =>
    (multiBasic false (dropNewline rest)).map fun (cs, r) => (.ofList cs, r)
  | '\'' :: '\'' :: '\'' :: rest =>
    (multiLiteral (dropNewline rest)).map fun (cs, r) => (.ofList cs, r)
  | '"' :: rest => (basic rest).map fun (cs, r) => (.ofList cs, r)
  | '\'' :: rest => (literal rest).map fun (cs, r) => (.ofList cs, r)
  | _ => none

/-! ## Numbers -/

/-- Digits in which single underscores may stand between two digits. -/
def spacedDigits (isDigit : Char → Bool) : List Char → List Char × List Char
  | '_' :: d :: rest =>
    if isDigit d then
      let (ds, rest) := spacedDigits isDigit rest
      (d :: ds, rest)
    else ([], '_' :: d :: rest)
  | d :: rest =>
    if isDigit d then
      let (ds, rest) := spacedDigits isDigit rest
      (d :: ds, rest)
    else ([], d :: rest)
  | [] => ([], [])

/-- Digits of which the first is no underscore. -/
def digits (isDigit : Char → Bool) (cs : List Char) : Option (List Char × List Char) :=
  if cs.head?.any isDigit then some (spacedDigits isDigit cs) else none

def sign : List Char → Bool × List Char
  | '-' :: rest => (true, rest)
  | '+' :: rest => (false, rest)
  | cs => (false, cs)

/-- Decimal digits without a leading zero. -/
def whole : List Char → Option (List Char × List Char)
  | '0' :: rest => some (['0'], rest)
  | cs => digits Char.isDigit cs

def valueIn (base : Nat) (ds : List Char) : Nat :=
  ds.foldl (fun n d => base * n + (Hex.value? d).getD 0) 0

def exponent? : List Char → Option (Int × List Char)
  | c :: rest =>
    if c = 'e' ∨ c = 'E' then do
      let (negative, rest) := sign rest
      let (ds, rest) ← digits Char.isDigit rest
      let e : Int := valueIn 10 ds
      return (if negative then -e else e, rest)
    else none
  | [] => none

def fraction? : List Char → Option (List Char × List Char)
  | '.' :: rest => digits Char.isDigit rest
  | _ => none

/-- The rest after a float. A float beyond double precision has to be negative. -/
def float? (cs : List Char) : Option (List Char) :=
  let (negative, cs) := sign cs
  match cs with
  | 'i' :: 'n' :: 'f' :: rest => some rest
  | 'n' :: 'a' :: 'n' :: rest => some rest
  | cs => do
    let (ds, cs) ← whole cs
    let (fs, e, rest) ←
      match fraction? cs, exponent? cs with
      | some (fs, rest), _ =>
        match exponent? rest with
        | some (e, rest) => some (fs, e, rest)
        | none => some (fs, 0, rest)
      | none, some (e, rest) => some ([], e, rest)
      | none, none => none
    let magnitude : Decimal := { whole := ds, fraction := fs, exponent := e }
    guard (negative || !magnitude.overflows)
    return rest

def isOctalDigit (c : Char) : Bool := '0' ≤ c && c ≤ '7'

def isBinaryDigit (c : Char) : Bool := c == '0' || c == '1'

/-- Integers fit 64 bits with a sign. -/
def inRange (n : Int) : Bool := decide (-9223372036854775808 ≤ n ∧ n ≤ 9223372036854775807)

def integerIn (base : Nat) (isDigit : Char → Bool) (cs : List Char) : Option (Int × List Char) := do
  let (ds, rest) ← digits isDigit cs
  let n : Int := valueIn base ds
  guard (inRange n)
  return (n, rest)

def integer? : List Char → Option (Int × List Char)
  | '0' :: 'x' :: rest => integerIn 16 (fun c => (Hex.value? c).isSome) rest
  | '0' :: 'o' :: rest => integerIn 8 isOctalDigit rest
  | '0' :: 'b' :: rest => integerIn 2 isBinaryDigit rest
  | cs => do
    let (negative, cs) := sign cs
    let (ds, rest) ← whole cs
    let magnitude : Int := valueIn 10 ds
    let n := if negative then -magnitude else magnitude
    guard (inRange n)
    return (n, rest)

/-! ## Date-times -/

def twoDigits : List Char → Option (Nat × List Char)
  | a :: b :: rest => if a.isDigit && b.isDigit then some (valueIn 10 [a, b], rest) else none
  | _ => none

/-- Two digits that spell a number up to a bound. -/
def twoUpTo (bound : Nat) (cs : List Char) : Option (Nat × List Char) := do
  let (n, rest) ← twoDigits cs
  guard (n ≤ bound)
  return (n, rest)

def exactly (c : Char) : List Char → Option (List Char)
  | d :: rest => if d = c then some rest else none
  | [] => none

def daysIn (year month : Nat) : Nat :=
  if month = 2 then
    if year % 4 = 0 ∧ (year % 100 ≠ 0 ∨ year % 400 = 0) then 29 else 28
  else if month = 4 ∨ month = 6 ∨ month = 9 ∨ month = 11 then 30
  else 31

/-- A number with at least two digits. -/
def padded2 (n : Nat) : String := if n < 10 then "0" ++ toString n else toString n

def date? (cs : List Char) : Option (String × List Char) := do
  let (century, rest) ← twoDigits cs
  let (year, rest) ← twoDigits rest
  let rest ← exactly '-' rest
  let (month, rest) ← twoUpTo 12 rest
  let rest ← exactly '-' rest
  let (day, rest) ← twoDigits rest
  guard (1 ≤ month ∧ 1 ≤ day ∧ day ≤ daysIn (100 * century + year) month)
  return (padded2 century ++ padded2 year ++ "-" ++ padded2 month ++ "-" ++ padded2 day, rest)

/-- Decimals of a second: nine are kept, and zeros at the end are not written. -/
def decimals (ds : List Char) : String :=
  match ((ds.take 9).reverse.dropWhile (· == '0')).reverse with
  | [] => ""
  | kept => "." ++ String.ofList kept

def seconds? (cs : List Char) : Option (String × List Char) := do
  let (second, rest) ← twoUpTo 60 cs
  match rest with
  | '.' :: tail =>
    match tail.takeWhile Char.isDigit with
    | [] => return (padded2 second, rest)
    | ds => return (padded2 second ++ decimals ds, tail.dropWhile Char.isDigit)
  | _ => return (padded2 second, rest)

def time? (cs : List Char) : Option (String × List Char) := do
  let (hour, rest) ← twoUpTo 23 cs
  let rest ← exactly ':' rest
  let (minute, rest) ← twoUpTo 59 rest
  let rest ← exactly ':' rest
  let (second, rest) ← seconds? rest
  return (padded2 hour ++ ":" ++ padded2 minute ++ ":" ++ second, rest)

/-- The distance from universal time, if it is given. -/
def offset (cs : List Char) : String × List Char :=
  match cs with
  | 'Z' :: rest => ("Z", rest)
  | 'z' :: rest => ("Z", rest)
  | c :: rest =>
    if c = '+' ∨ c = '-' then
      match (do
        let (hour, rest) ← twoUpTo 23 rest
        let rest ← exactly ':' rest
        let (minute, rest) ← twoUpTo 59 rest
        return (hour, minute, rest)) with
      | some (hour, minute, rest) =>
        let mark := if c = '-' ∧ hour + minute ≠ 0 then "-" else "+"
        (mark ++ padded2 hour ++ ":" ++ padded2 minute, rest)
      | none => ("", cs)
    else ("", cs)
  | [] => ("", cs)

/-- A time after a date. -/
def timeAfter? : List Char → Option (String × List Char)
  | c :: rest =>
    if c = 'T' ∨ c = 't' ∨ c = ' ' then do
      let (time, rest) ← time? rest
      let (away, rest) := offset rest
      return ("T" ++ time ++ away, rest)
    else none
  | [] => none

/-- A date, a time, or both; its text is in one standard form. -/
def moment? (cs : List Char) : Option (String × List Char) :=
  match date? cs with
  | some (date, rest) =>
    match timeAfter? rest with
    | some (time, rest) => some (date ++ time, rest)
    | none => some (date, rest)
  | none => time? cs

end ContractTyping.Toml.Token
