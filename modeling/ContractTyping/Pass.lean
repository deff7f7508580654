import ContractTyping.Env
import ContractTyping.Event

/-!
Computations of the pass: they read and change an environment and write a log. Main statement: the
three monad laws, so that steps may be regrouped.
-/

namespace ContractTyping

structure Outcome (α : Type) where
  value : α
  env : Env
  log : List Event := []

def Pass (α : Type) : Type := Env → Outcome α

namespace Pass

protected def pure (a : α) : Pass α := fun env => { value := a, env }

protected def bind (p : Pass α) (f : α → Pass β) : Pass β := fun env =>
  let first := p env
  let second := f first.value first.env
  { second with log := first.log ++ second.log }

instance : Monad Pass where
  pure := Pass.pure
  bind := Pass.bind

/-- Writes one event. -/
def emit (e : Event) : Pass Unit := fun env => { value := (), env, log := [e] }

/-- Writes events in order. -/
def emitAll (es : List Event) : Pass Unit := fun env => { value := (), env, log := es }

/-- A part of the environment. -/
def asks (f : Env → α) : Pass α := fun env => { value := f env, env }

def modify (f : Env → Env) : Pass Unit := fun env => { value := (), env := f env }

def lookup? (name : String) : Pass (Option Ty) := asks (·.lookup? name)

def bindName (name : String) (ty : Ty) : Pass Unit := modify (·.bind name ty)

def updateLedger (f : Ledger → Ledger) : Pass Unit := modify (·.updateLedger f)

@[simp]
theorem pure_apply (a : α) (env : Env) : (pure a : Pass α) env = { value := a, env } := rfl

@[simp]
theorem bind_value (p : Pass α) (f : α → Pass β) (env : Env) :
    ((p >>= f) env).value = (f (p env).value (p env).env).value := rfl

@[simp]
theorem bind_env (p : Pass α) (f : α → Pass β) (env : Env) :
    ((p >>= f) env).env = (f (p env).value (p env).env).env := rfl

@[simp]
theorem bind_log (p : Pass α) (f : α → Pass β) (env : Env) :
    ((p >>= f) env).log = (p env).log ++ (f (p env).value (p env).env).log := rfl

@[simp]
theorem map_value (f : α → β) (p : Pass α) (env : Env) :
    ((f <$> p) env).value = f (p env).value := rfl

@[simp]
theorem map_env (f : α → β) (p : Pass α) (env : Env) : ((f <$> p) env).env = (p env).env := rfl

@[simp]
theorem map_log (f : α → β) (p : Pass α) (env : Env) : ((f <$> p) env).log = (p env).log := by
  show (p env).log ++ [] = (p env).log
  simp

@[simp]
theorem emit_apply (e : Event) (env : Env) : emit e env = { value := (), env, log := [e] } := rfl

@[simp]
theorem emitAll_apply (es : List Event) (env : Env) :
    emitAll es env = { value := (), env, log := es } := rfl

@[simp]
theorem asks_apply (f : Env → α) (env : Env) : asks f env = { value := f env, env } := rfl

@[simp]
theorem modify_apply (f : Env → Env) (env : Env) :
    modify f env = { value := (), env := f env } := rfl

@[simp]
theorem lookup?_apply (name : String) (env : Env) :
    lookup? name env = { value := env.lookup? name, env } := rfl

@[simp]
theorem bindName_apply (name : String) (ty : Ty) (env : Env) :
    bindName name ty env = { value := (), env := env.bind name ty } := rfl

@[simp]
theorem updateLedger_apply (f : Ledger → Ledger) (env : Env) :
    updateLedger f env = { value := (), env := env.updateLedger f } := rfl

instance : LawfulMonad Pass := LawfulMonad.mk' Pass
  (fun p => by
    funext env
    show Pass.bind p (fun a => Pass.pure (id a)) env = p env
    simp [Pass.bind, Pass.pure])
  (fun a f => by
    funext env
    show Pass.bind (Pass.pure a) f env = f a env
    simp [Pass.bind, Pass.pure])
  (fun p f g => by
    funext env
    show Pass.bind (Pass.bind p f) g env = Pass.bind p (fun a => Pass.bind (f a) g) env
    simp [Pass.bind])

end Pass

end ContractTyping
