/-!
Byte ranges of the text a tree was read from. The typing pass carries them and never looks inside.
Positions are 64-bit words; a range read from a document may run backwards, and then has length
zero.
-/

namespace ContractTyping

structure Span where
  start : UInt64 := 0
  stop : UInt64 := 0
  deriving DecidableEq, Repr, Inhabited

namespace Span

/-- The range of nodes that stand for no text. -/
def dummy : Span := {}

/-- A range that does not run backwards. -/
def make? (start stop : UInt64) : Option Span :=
  if start ≤ stop then some ⟨start, stop⟩ else none

def isDummy (s : Span) : Bool := s.start == 0 && s.stop == 0

def length (s : Span) : Nat := s.stop.toNat - s.start.toNat

def isEmpty (s : Span) : Bool := s.length == 0

/-- The range as text, for example `1..3`. -/
def describe (s : Span) : String := toString s.start.toNat ++ ".." ++ toString s.stop.toNat

theorem isDummy_iff (s : Span) : s.isDummy = true ↔ s = dummy := by
  cases s
  simp [isDummy, dummy]

end Span

end ContractTyping
