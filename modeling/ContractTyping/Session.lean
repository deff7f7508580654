import ContractTyping.Engine

/-!
Sessions: one engine and one environment that live through a series of steps, with a saved copy of
the environment to go back to.
-/

namespace ContractTyping

structure Session where
  engine : Engine
  env : Env
  saved : Env

inductive Step where
  | visit (tree : Node) (expected : Option Ty)
  | visitChild (tree : Node) (index : Nat) (expected : Option Ty)
  /-- Runs the pass in an environment of its own. -/
  | checkUnit (tree : Node)
  | bind (name : String) (ty : Ty)
  | lookup (name : String)
  | displayName (name : String)
  | showLedger
  | resetLedger
  | save
  | restore
  | register (tag : String) (rule : Rule)

inductive Answer where
  | nothing
  | node (n : Node)
  | ty (t : Option Ty)
  | text (s : Option String)
  | ledger (l : Ledger)

namespace Session

/-- A session starts with its first environment saved. -/
def start (engine : Engine) (env : Env) : Session := { engine, env, saved := env }

/-- Keeps the environment that a computation leaves behind. -/
def run (s : Session) (p : Pass Node) : Answer × List Event × Session :=
  let out := p s.env
  (.node out.value, out.log, { s with env := out.env })

/-- The answer to a step, what it logged, and the session after it. -/
def perform (s : Session) : Step → Answer × List Event × Session
  | .visit tree expected => s.run (s.engine.visit tree expected)
  | .visitChild tree index expected => s.run (s.engine.visitChild tree index expected)
  | .checkUnit tree =>
    let out := s.engine.checkUnit tree
    (.node out.value, out.log, s)
  | .bind name ty => (.nothing, [], { s with env := s.env.bind name ty })
  | .lookup name => (.ty (s.env.lookup? name), [], s)
  | .displayName name => (.text (s.env.ledger.displayName? name), [], s)
  | .showLedger => (.ledger s.env.ledger, [], s)
  | .resetLedger => (.nothing, [], { s with env := s.env.updateLedger fun _ => {} })
  | .save => (.nothing, [], { s with saved := s.env })
  | .restore => (.nothing, [], { s with env := s.saved })
  | .register tag rule => (.nothing, [], { s with engine := s.engine.register tag rule })

end Session

end ContractTyping
