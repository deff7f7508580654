import ContractTyping.Json.Fields
import ContractTyping.Span

/-!
The JSON form of ranges: an object with both ends. Reading also takes a pair.
-/

namespace ContractTyping.Span

def toJson (s : Span) : Json := .obj [("start", .word s.start), ("end", .word s.stop)]

def ofJson? : Json → Option Span
  | .object entries =>
    if Json.distinct ["start", "end"] entries then
      return ⟨← Json.required "start" Json.word? entries, ← Json.required "end" Json.word? entries⟩
    else none
  | .array [start, stop] => return ⟨← start.word?, ← stop.word?⟩
  | _ => none

end ContractTyping.Span
