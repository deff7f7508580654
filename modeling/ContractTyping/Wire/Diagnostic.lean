import ContractTyping.Diagnostic
import ContractTyping.Wire.Span

/-!
The JSON form of diagnostics: an object whose one key names the cause. What stands under the key is
an object; reading also takes an array of its fields in order.
-/

namespace ContractTyping

namespace TypeFault

def toJson : TypeFault → Json
  | notAMapping found arity span =>
    .obj [("NotAMapping",
      .obj [("found", .str found), ("arity", .word arity), ("span", span.toJson)])]

def notAMapping? : Json → Option TypeFault
  | .object entries =>
    if Json.distinct ["found", "arity", "span"] entries then
      return notAMapping (← Json.required "found" Json.string? entries)
        (← Json.required "arity" Json.word? entries) (← Json.required "span" Span.ofJson? entries)
    else none
  | .array [found, arity, span] =>
    return notAMapping (← found.string?) (← arity.word?) (← Span.ofJson? span)
  | _ => none

def ofJson? : Json → Option TypeFault
  | .object [(some "NotAMapping", j)] => notAMapping? j
  | _ => none

end TypeFault

namespace Diagnostic

def toJson : Diagnostic → Json
  | unresolvedName name span =>
    .obj [("UnresolvedName", .obj [("name", .str name), ("span", span.toJson)])]
  | missingChild tag index span =>
    .obj [("MissingChild",
      .obj [("tag", .str tag), ("index", .word index), ("span", span.toJson)])]
  | typeFault fault => .obj [("TypeError", fault.toJson)]

def unresolvedName? : Json → Option Diagnostic
  | .object entries =>
    if Json.distinct ["name", "span"] entries then
      return unresolvedName (← Json.required "name" Json.string? entries)
        (← Json.required "span" Span.ofJson? entries)
    else none
  | .array [name, span] => return unresolvedName (← name.string?) (← Span.ofJson? span)
  | _ => none

def missingChild? : Json → Option Diagnostic
  | .object entries =>
    if Json.distinct ["tag", "index", "span"] entries then
      return missingChild (← Json.required "tag" Json.string? entries)
        (← Json.required "index" Json.word? entries) (← Json.required "span" Span.ofJson? entries)
    else none
  | .array [tag, index, span] =>
    return missingChild (← tag.string?) (← index.word?) (← Span.ofJson? span)
  | _ => none

def ofJson? : Json → Option Diagnostic
  | .object [(some "UnresolvedName", j)] => unresolvedName? j
  | .object [(some "MissingChild", j)] => missingChild? j
  | .object [(some "TypeError", j)] => (TypeFault.ofJson? j).map typeFault
  | _ => none

end Diagnostic

end ContractTyping
