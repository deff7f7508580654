import ContractTyping.Config.Basic
import ContractTyping.Event
import ContractTyping.Toml.Reader
import ContractTyping.Wire.Ty

/-!
Reading settings from TOML. Keys that are no setting are reported and otherwise ignored; a setting
of the wrong kind makes the document malformed. Reports made before a fault is met stay in the log.
-/

namespace ContractTyping

/-- Why contents could not be read. -/
inductive ReadFailure where
  | notFound
  | notText
  deriving DecidableEq, Repr

namespace ReadFailure

def message : ReadFailure → String
  | notFound => "No such file or directory (os error 2)"
  | notText => "stream did not contain valid UTF-8"

end ReadFailure

inductive ConfigError where
  | unreadable (path : String) (cause : ReadFailure)
  | malformed
  deriving DecidableEq, Repr

namespace ConfigError

def message : ConfigError → String
  | unreadable path cause =>
    "failed to read pass configuration at " ++ quoted path ++ ": " ++ cause.message
  | malformed => "failed to parse pass configuration"

end ConfigError

namespace Config

/-- Settings, or why there are none, and what was reported on the way. -/
structure Reading where
  result : Except ConfigError Config
  log : List Event := []

def stringOf? : Toml.Value → Option String
  | .string s => some s
  | _ => none

def booleanOf? : Toml.Value → Option Bool
  | .boolean b => some b
  | _ => none

/-- Names with their types, in the order of the table. -/
def bindingsOf? : Json.Entries → Option (List (String × Ty))
  | [] => some []
  | (key, j) :: rest => do
    let name ← key
    let ty ← Ty.ofJson? j
    let bindings ← bindingsOf? rest
    return (name, ty) :: bindings

def preludeOf? (v : Toml.Value) : Option (List (String × Ty)) :=
  match v.toJson with
  | .object entries => bindingsOf? entries
  | _ => none

/-- The change that a key makes, if it is the key of a setting. The change fails on a value of the
wrong kind. -/
def settingOf? (key : String) : Option (Config → Toml.Value → Option Config) :=
  match key with
  | "constructor-name" => some fun c v => (stringOf? v).map fun s => { c with constructorName := s }
  | "zero-address-literal" => some fun c v => (stringOf? v).map fun s => { c with zeroAddress := s }
  | "guard-operator" => some fun c v => (stringOf? v).map fun s => { c with guardOperator := s }
  | "enum-name-prefix" => some fun c v => (stringOf? v).map fun s => { c with enumStem := s }
  | "synthesize-guards" =>
    some fun c v => (booleanOf? v).map fun b => { c with synthesizeGuards := b }
  | "prelude" => some fun c v => (preludeOf? v).map fun bs => { c with prelude := bs }
  | _ => none

/-- Applies the entries of a document in order. -/
def ofEntries (c : Config) : List (String × Toml.Value) → Reading
  | [] => { result := .ok c }
  | (key, v) :: rest =>
    match settingOf? key with
    | none =>
      let later := ofEntries c rest
      { later with log := .unusedKey key :: later.log }
    | some change =>
      match change c v with
      | some c => ofEntries c rest
      | none => { result := .error .malformed }

def ofText (text : String) : Reading :=
  match Toml.read? text with
  | some entries => ofEntries {} entries
  | none => { result := .error .malformed }

/-- Reads the contents found at a path, if there are any. -/
def ofFile (path : String) : Option ByteArray → Reading
  | none => { result := .error (.unreadable path .notFound) }
  | some bytes =>
    match String.fromUTF8? bytes with
    | some text => ofText text
    | none => { result := .error (.unreadable path .notText) }

end Config

end ContractTyping
