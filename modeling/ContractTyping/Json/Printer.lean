import ContractTyping.Json.Basic
import ContractTyping.Text.Hex

/-!
Compact JSON text: no blanks, short escapes where there are any, other controls by code point, and
every other character as it is.
-/

namespace ContractTyping.Json

def escape (c : Char) : List Char :=
  if c = '"' then ['\\', '"']
  else if c = '\\' then ['\\', '\\']
  else if c = '\x08' then ['\\', 'b']
  else if c = '\x0c' then ['\\', 'f']
  else if c = '\n' then ['\\', 'n']
  else if c = '\r' then ['\\', 'r']
  else if c = '\t' then ['\\', 't']
  else if c.toNat < 32 then ['\\', 'u'] ++ Hex.lowest4 c.toNat
  else [c]

/-- A string between quotes; one that spells no text is written as half of a surrogate pair. -/
def renderString : Spelling → String
  | some s => String.ofList ('"' :: s.toList.flatMap escape ++ ['"'])
  | none => "\"\\ud800\""

def renderNumber : Number → String
  | .natural n => toString n
  | .decimal d =>
    (if d.negative then "-" else "") ++ String.ofList d.whole
      ++ (if d.fraction.isEmpty then "" else "." ++ String.ofList d.fraction)
      ++ "e" ++ toString d.exponent

mutual

def render : Json → String
  | null => "null"
  | bool true => "true"
  | bool false => "false"
  | number n => renderNumber n
  | string s => renderString s
  | array items => "[" ++ ",".intercalate (renderItems items) ++ "]"
  | object entries => "\x7b" ++ ",".intercalate (renderEntries entries) ++ "\x7d"

def renderItems : List Json → List String
  | [] => []
  | j :: js => j.render :: renderItems js

def renderEntries : List (Spelling × Json) → List String
  | [] => []
  | (k, j) :: rest => (renderString k ++ ":" ++ j.render) :: renderEntries rest

end

end ContractTyping.Json
