import ContractTyping.Node.Basic

/-!
What the pass gathers over one source: imports, declarations to hoist, display names of functions,
and parameters that wait for a guard. Lists grow at their end.
-/

namespace ContractTyping

structure Import where
  /-- The imported symbol as a plain identifier. -/
  encodedName : String
  shortName : String
  path : String
  address : String
  deriving DecidableEq, Repr, Inhabited

/-- The node that binds an import in a declaration scope. -/
def Import.toPair (i : Import) : Node :=
  { tag := .importPair
    children := [
      (Node.leaf .text i.encodedName).withContext "fname",
      (Node.leaf .text i.shortName).withContext "sname",
      (Node.leaf .text i.address).withContext "address"] }

structure Ledger where
  imports : List Import := []
  decls : List Node := []
  /-- Display names of functions, the latest first. -/
  displayNames : List (String × String) := []
  /-- Typed names of address parameters, in parameter order. -/
  unguarded : List Node := []
  deriving DecidableEq, Repr, Inhabited

namespace Ledger

def addImport (l : Ledger) (i : Import) : Ledger := { l with imports := l.imports ++ [i] }

def addDecl (l : Ledger) (n : Node) : Ledger := { l with decls := l.decls ++ [n] }

def addDisplayName (l : Ledger) (name display : String) : Ledger :=
  { l with displayNames := (name, display) :: l.displayNames }

def addUnguarded (l : Ledger) (n : Node) : Ledger := { l with unguarded := l.unguarded ++ [n] }

/-- How many imports, declarations and unguarded parameters there are. -/
def counts (l : Ledger) : List Nat := [l.imports.length, l.decls.length, l.unguarded.length]

def displayName? (l : Ledger) (name : String) : Option String := l.displayNames.lookup name

end Ledger

end ContractTyping
