import ContractTyping.Text.Unprintable

/-!
Quoted text: a string between double quotes, with a backslash before quotes and backslashes, short
escapes for the common controls, and the code point in braces for every other unprintable character.
-/

namespace ContractTyping.Quoted

def escape (c : Char) : List Char :=
  if c = '"' then ['\\', '"']
  else if c = '\\' then ['\\', '\\']
  else if c = '\n' then ['\\', 'n']
  else if c = '\r' then ['\\', 'r']
  else if c = '\t' then ['\\', 't']
  else if c = '\x00' then ['\\', '0']
  else if isPrintable c then [c]
  else ['\\', 'u', '\x7b'] ++ Nat.toDigits 16 c.toNat ++ ['\x7d']

def encode (cs : List Char) : List Char := '"' :: cs.flatMap escape ++ ['"']

end ContractTyping.Quoted

namespace ContractTyping

def quoted (s : String) : String := String.ofList (Quoted.encode s.toList)

end ContractTyping
