import ContractTyping.Span

/-!
Diagnostics. A rule that finds a fault stores it on the node and the pass goes on with the siblings.
-/

namespace ContractTyping

/-- Faults in the types of operands. -/
inductive TypeFault where
  | notAMapping (found : String) (arity : UInt64) (span : Span)
  deriving DecidableEq, Repr

namespace TypeFault

def span : TypeFault → Span
  | notAMapping _ _ span => span

def message : TypeFault → String
  | notAMapping found arity _ =>
    "Mapping operand is not a function of " ++ toString arity.toNat
      ++ " index argument(s).\nfound: " ++ found

end TypeFault

inductive Diagnostic where
  | unresolvedName (name : String) (span : Span)
  /-- A node of kind `tag` has fewer than `index` children. -/
  | missingChild (tag : String) (index : UInt64) (span : Span)
  | typeFault (fault : TypeFault)
  deriving DecidableEq, Repr

namespace Diagnostic

def span : Diagnostic → Span
  | unresolvedName _ span => span
  | missingChild _ _ span => span
  | typeFault fault => fault.span

def message : Diagnostic → String
  | unresolvedName name _ => "untyped " ++ name
  | missingChild tag index _ =>
    "#" ++ tag ++ " node is missing child " ++ toString index.toNat
  | typeFault fault => fault.message

end Diagnostic

end ContractTyping
