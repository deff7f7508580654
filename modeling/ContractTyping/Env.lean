import ContractTyping.Config.Basic
import ContractTyping.Ledger

/-!
The environment of the pass: types of the names in scope, the latest binding first, and the ledger.
-/

namespace ContractTyping

structure Env where
  scope : List (String × Ty) := []
  ledger : Ledger := {}
  deriving DecidableEq, Repr, Inhabited

namespace Env

/-- A fresh environment has the prelude in scope. -/
def ofConfig (c : Config) : Env := { scope := c.prelude }

def lookup? (e : Env) (name : String) : Option Ty := e.scope.lookup name

/-- Binds a name and shadows its earlier bindings. -/
def bind (e : Env) (name : String) (ty : Ty) : Env := { e with scope := (name, ty) :: e.scope }

def updateLedger (e : Env) (f : Ledger → Ledger) : Env := { e with ledger := f e.ledger }

theorem lookup?_bind (e : Env) (name x : String) (ty : Ty) :
    (e.bind name ty).lookup? x = if x = name then some ty else e.lookup? x := by
  by_cases h : x = name
  · simp [lookup?, bind, h]
  · simp [lookup?, bind, List.lookup_cons, h, beq_eq_false_iff_ne.2 h]

end Env

end ContractTyping
