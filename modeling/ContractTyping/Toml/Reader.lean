import ContractTyping.Toml.Table
import ContractTyping.Toml.Token

/-!
Reading TOML documents: values, lines, and the document they add up to.
-/

namespace ContractTyping.Toml

namespace Reader

open Token

/-! ## Keys -/

def keyPart : List Char → Option (String × List Char)
  | '"' :: rest => (basic rest).map fun (cs, rest) => (.ofList cs, rest)
  | '\'' :: rest => (literal rest).map fun (cs, rest) => (.ofList cs, rest)
  | cs =>
    match cs.takeWhile isBareKeyChar with
    | [] => none
    | ds => some (.ofList ds, cs.dropWhile isBareKeyChar)

/-- The parts of a dotted key with the blanks around them; the last part stands apart. -/
def keyParts : (limit : Nat) → List Char → Option ((List String × String) × List Char)
  | 0, _ => none
  | limit + 1, cs => do
    let (part, rest) ← keyPart (skipBlanks cs)
    match skipBlanks rest with
    | '.' :: rest =>
      let ((path, key), rest) ← keyParts limit rest
      return ((part :: path, key), rest)
    | rest => return (([], part), rest)

/-- A key has fewer than eighty parts. -/
def key (cs : List Char) : Option ((List String × String) × List Char) := keyParts 79 cs

/-! ## Values -/

def scalar? (cs : List Char) : Option (Value × List Char) :=
  match cs with
  | 't' :: 'r' :: 'u' :: 'e' :: rest => some (.boolean true, rest)
  | 'f' :: 'a' :: 'l' :: 's' :: 'e' :: rest => some (.boolean false, rest)
  | cs =>
    match string cs, moment? cs, float? cs, integer? cs with
    | some (s, rest), _, _, _ => some (.string s, rest)
    | _, some (text, rest), _, _ => some (.moment text, rest)
    | _, _, some rest, _ => some (.float, rest)
    | _, _, _, some (n, rest) => some (.integer n, rest)
    | _, _, _, _ => none

mutual

/-- A value nested in at most `depth` further arrays and inline tables. Each nested value and each
further element takes one unit of `fuel`. -/
def value : (fuel depth : Nat) → List Char → Option (Value × List Char)
  | 0, _, _ => none
  | fuel + 1, depth, cs =>
    match depth, cs with
    | 0, '[' :: _ => none
    | 0, '\x7b' :: _ => none
    | depth + 1, '[' :: rest => (elements fuel depth rest).map fun (vs, rest) => (.array vs, rest)
    | depth + 1, '\x7b' :: rest =>
      match skipBlanks rest with
      | '\x7d' :: rest => some (.table [], rest)
      | rest => do
        let (as, rest) ← assignments fuel depth rest
        return (← inlineTable? as, rest)
    | _, cs => scalar? cs

/-- The elements of an array up to its closing bracket. A comma may stand after the last. -/
def elements : (fuel depth : Nat) → List Char → Option (List Value × List Char)
  | 0, _, _ => none
  | fuel + 1, depth, cs =>
    match skipLines false cs with
    | ']' :: rest => some ([], rest)
    | cs => do
      let (v, rest) ← value fuel depth cs
      match skipLines false rest with
      | ']' :: rest => return ([v], rest)
      | ',' :: rest =>
        let (vs, rest) ← elements fuel depth rest
        return (v :: vs, rest)
      | _ => none

/-- The assignments of an inline table up to its closing brace, at least one. -/
def assignments : (fuel depth : Nat) → List Char → Option (List Assignment × List Char)
  | 0, _, _ => none
  | fuel + 1, depth, cs => do
    let ((path, key), rest) ← key cs
    let rest ← exactly '=' rest
    let (v, rest) ← value fuel depth (skipBlanks rest)
    match skipBlanks rest with
    | '\x7d' :: rest => return ([⟨path, key, v⟩], rest)
    | ',' :: rest =>
      let (as, rest) ← assignments fuel depth rest
      return (⟨path, key, v⟩ :: as, rest)
    | _ => none

end

/-- Values are nested less than eighty deep. -/
def topValue (cs : List Char) : Option (Value × List Char) := value (2 * cs.length + 2) 79 cs

/-! ## Lines -/

inductive Line where
  | empty
  | assignment (a : Assignment)
  | header (h : Header)

/-- One line, or several when a value runs over line ends. -/
def line (cs : List Char) : Option (Line × List Char) :=
  match skipBlanks cs with
  | '[' :: '[' :: rest => do
    let ((path, key), rest) ← key rest
    let rest ← exactly ']' rest
    let rest ← exactly ']' rest
    return (.header ⟨path, key, true⟩, ← lineEnd? rest)
  | '[' :: rest => do
    let ((path, key), rest) ← key rest
    let rest ← exactly ']' rest
    return (.header ⟨path, key, false⟩, ← lineEnd? rest)
  | cs =>
    match lineEnd? cs with
    | some rest => some (.empty, rest)
    | none => do
      let ((path, key), rest) ← key cs
      let rest ← exactly '=' rest
      let (v, rest) ← topValue (skipBlanks rest)
      return (.assignment ⟨path, key, v⟩, ← lineEnd? rest)

/-- Each line takes one unit of `fuel`. -/
def lines : (fuel : Nat) → List Char → Option (List Line)
  | _, [] => some []
  | 0, _ => none
  | fuel + 1, cs => do
    let (l, rest) ← line cs
    return l :: (← lines fuel rest)

/-- The assignments before the first header, and the sections. -/
def sections : List Line → List Assignment × List Section
  | [] => ([], [])
  | .empty :: rest => sections rest
  | .assignment a :: rest =>
    let (as, ss) := sections rest
    (a :: as, ss)
  | .header h :: rest =>
    let (as, ss) := sections rest
    ([], ⟨h, as⟩ :: ss)

def dropMark : List Char → List Char
  | '\uFEFF' :: rest => rest
  | cs => cs

end Reader

/-- Reads a document. A byte order mark may lead it. -/
def read? (text : String) : Option (List (String × Value)) := do
  let cs := Reader.dropMark text.toList
  let ls ← Reader.lines (cs.length + 1) cs
  let (top, sections) := Reader.sections ls
  document? top sections

end ContractTyping.Toml
