import ContractTyping.Tag
import ContractTyping.Ty

/-!
The log of the pass: what happened, in order.
-/

namespace ContractTyping

inductive Level where
  | trace
  | debug
  | warn
  deriving DecidableEq, Repr

namespace Level

def name : Level → String
  | trace => "TRACE"
  | debug => "DEBUG"
  | warn => "WARN"

end Level

inductive Event where
  /-- A node of this kind is visited. -/
  | dispatch (tag : Tag)
  | enteredUnit (children : Nat)
  | hoisted (count : Nat)
  | recordedImport (symbol encoded : String)
  | boundAssumption (name : String) (ty : Ty)
  | guarded (function : String) (count : Nat)
  | becameEvent (function : String)
  | queuedStruct (name : String)
  | queuedEnum (name : String)
  | rawUntyped (name : String)
  | untyped (name : String) (tag : Tag)
  | unusedKey (key : String)
  deriving DecidableEq, Repr

/-- What a field of an event holds. -/
inductive EventField where
  | text (value : String)
  | count (value : Nat)
  deriving DecidableEq, Repr

namespace Event

def level : Event → Level
  | dispatch _ => .trace
  | rawUntyped _ => .trace
  | untyped _ _ => .warn
  | unusedKey _ => .warn
  | _ => .debug

def message : Event → String
  | dispatch _ => "dispatch"
  | enteredUnit _ => "type checking source unit"
  | hoisted _ => "hoisting synthesized declarations"
  | recordedImport _ _ => "recorded import"
  | boundAssumption _ _ => "bound assumption"
  | guarded _ _ => "synthesized guards"
  | becameEvent _ => "rewriting as event declaration"
  | queuedStruct _ => "queued struct for hoisting"
  | queuedEnum _ => "queued enum for hoisting"
  | rawUntyped _ => "raw name left untyped"
  | untyped name _ => "untyped " ++ name
  | unusedKey key => "unused pass configuration key: " ++ key

def fields : Event → List (String × EventField)
  | dispatch tag => [("tag", .text tag.name)]
  | enteredUnit children => [("children", .count children)]
  | hoisted count => [("count", .count count)]
  | recordedImport symbol encoded => [("symbol", .text symbol), ("encoded", .text encoded)]
  | boundAssumption name ty => [("name", .text name), ("ty", .text ty.render)]
  | guarded function count => [("function", .text function), ("count", .count count)]
  | becameEvent function => [("function", .text function)]
  | queuedStruct name => [("name", .text name)]
  | queuedEnum name => [("name", .text name)]
  | rawUntyped name => [("name", .text name)]
  | untyped _ tag => [("tag", .text tag.name)]
  | unusedKey _ => []

end Event

end ContractTyping
