import ContractTyping.Json.Basic

/-!
Reading the entries of an object by key.
-/

namespace ContractTyping.Json

abbrev Entries := List (Spelling × Json)

/-- The first value under a key. -/
def field? (key : String) (entries : Entries) : Option Json := entries.lookup (some key)

/-- How often a key occurs. -/
def occurrences (key : String) (entries : Entries) : Nat :=
  entries.countP fun entry => entry.1 == some key

/-- No key of the list is repeated, and every key spells a text. -/
def distinct (keys : List String) (entries : Entries) : Bool :=
  keys.all (fun key => decide (occurrences key entries ≤ 1))
    && entries.all fun entry => entry.1.isSome

/-- Reads a field that has to be there. -/
def required (key : String) (read : Json → Option α) (entries : Entries) : Option α :=
  (field? key entries).bind read

/-- Reads a field that has a default. -/
def defaulted (key : String) (read : Json → Option α) (default : α) (entries : Entries) :
    Option α :=
  match field? key entries with
  | some j => read j
  | none => some default

end ContractTyping.Json
