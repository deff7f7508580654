import ContractTyping.Proofs.Tree

/-!
Renaming the spans and contexts of a tree. A relabeling leaves the dummy span, the absent context
and the labels that the pass writes itself as they are; everything else it may send anywhere. Main
statement: `Node.eq_relabel_of`, a relabelled node is known by its own fields and its children.
-/

namespace ContractTyping

/-- The labels that the pass writes into contexts. -/
def ownLabels : List String :=
  ["user", "param", "body", "name", "data", "returns", "nconst", "view", "memory", "fname", "sname",
   "address"]

structure Relabeling where
  span : Span → Span
  context : Option String → Option String
  dummy : span .dummy = .dummy
  absent : context none = none
  label : ∀ s ∈ ownLabels, context (some s) = some s

namespace Relabeling

protected def id : Relabeling where
  span := fun s => s
  context := fun c => c
  dummy := rfl
  absent := rfl
  label := fun _ _ => rfl

/-- Spans outside a list become dummies. -/
def keeping (spans : List Span) : Relabeling where
  span := fun s => if s ∈ spans then s else .dummy
  context := fun c => c
  dummy := by split <;> rfl
  absent := rfl
  label := fun _ _ => rfl

end Relabeling

def TypeFault.mapSpan (f : Span → Span) : TypeFault → TypeFault
  | notAMapping found arity span => notAMapping found arity (f span)

namespace Diagnostic

def mapSpan (f : Span → Span) : Diagnostic → Diagnostic
  | unresolvedName name span => unresolvedName name (f span)
  | missingChild tag index span => missingChild tag index (f span)
  | typeFault fault => typeFault (fault.mapSpan f)

theorem span_mapSpan (f : Span → Span) (d : Diagnostic) : (d.mapSpan f).span = f d.span := by
  rcases d with _ | _ | ⟨_⟩ <;> rfl

theorem mapSpan_eq_self {f : Span → Span} {d : Diagnostic} (h : f d.span = d.span) :
    d.mapSpan f = d := by
  rcases d with ⟨name, span⟩ | ⟨tag, index, span⟩ | ⟨found, arity, span⟩
  · exact congrArg (unresolvedName name) h
  · exact congrArg (missingChild tag index) h
  · exact congrArg (fun s => typeFault (.notAMapping found arity s)) h

end Diagnostic

namespace Node

mutual

/-- The tree with all spans and contexts renamed, spans inside diagnostics included. -/
def relabel (ρ : Relabeling) : Node → Node
  | { tag, children, payload, ty, context, error, done, span } =>
    { tag, children := relabelEach ρ children, payload, ty, context := ρ.context context,
      error := error.map (·.mapSpan ρ.span), done, span := ρ.span span }

def relabelEach (ρ : Relabeling) : List Node → List Node
  | [] => []
  | n :: ns => n.relabel ρ :: relabelEach ρ ns

end

/-- Own fields of a node that are those of another, relabelled. -/
structure Renamed (ρ : Relabeling) (n n' : Node) : Prop where
  tag : n'.tag = n.tag
  payload : n'.payload = n.payload
  ty : n'.ty = n.ty
  context : n'.context = ρ.context n.context
  error : n'.error = n.error.map (·.mapSpan ρ.span)
  done : n'.done = n.done
  span : n'.span = ρ.span n.span

variable {ρ : Relabeling}

theorem relabelEach_eq_map (ns : List Node) : relabelEach ρ ns = ns.map (relabel ρ) := by
  induction ns with
  | nil => rfl
  | cons n ns ih => simp [relabelEach, ih]

theorem relabel_children (n : Node) : (n.relabel ρ).children = n.children.map (relabel ρ) := by
  cases n
  exact relabelEach_eq_map _

theorem renamed_relabel (n : Node) : n.Renamed ρ (n.relabel ρ) := by
  cases n
  exact ⟨rfl, rfl, rfl, rfl, rfl, rfl, rfl⟩

theorem eq_relabel_of {n n' : Node} (h : n.Renamed ρ n')
    (hc : n'.children = n.children.map (relabel ρ)) : n' = n.relabel ρ := by
  obtain ⟨tag, children, payload, ty, context, error, done, span⟩ := n
  obtain ⟨tag', children', payload', ty', context', error', done', span'⟩ := n'
  obtain ⟨h₁, h₂, h₃, h₄, h₅, h₆, h₇⟩ := h
  dsimp only at h₁ h₂ h₃ h₄ h₅ h₆ h₇ hc
  rw [relabel, relabelEach_eq_map, h₁, h₂, h₃, h₄, h₅, h₆, h₇, hc]

theorem relabel_text (n : Node) : (n.relabel ρ).text = n.text := by
  induction n using induction_on_children with
  | step n ih =>
    obtain ⟨tag, children, payload⟩ := n
    cases payload with
    | some s => rfl
    | none =>
      cases children with
      | nil => rfl
      | cons c cs => exact ih c List.mem_cons_self

theorem descendant?_relabel (n : Node) (path : List Nat) :
    (n.relabel ρ).descendant? path = (n.descendant? path).map (relabel ρ) :=
  descendant?_map relabel_children n path

theorem relabel_id (n : Node) : n.relabel .id = n := by
  induction n using induction_on_children with
  | step n ih =>
    refine (eq_relabel_of ⟨rfl, rfl, rfl, rfl, ?_, rfl, rfl⟩ ?_).symm
    · cases n.error with
      | none => rfl
      | some d => exact congrArg some (Diagnostic.mapSpan_eq_self rfl).symm
    · exact ((List.map_congr_left ih).trans (List.map_id' _)).symm

theorem map_relabel_id (ns : List Node) : ns.map (relabel .id) = ns :=
  (List.map_congr_left fun n _ => relabel_id n).trans (List.map_id' _)

/-- A leaf that the pass makes itself, with a label of its own. -/
theorem relabel_made {n : Node} (hc : n.children = []) (error : n.error = none)
    (context : ρ.context n.context = n.context) (span : n.span = .dummy) : n.relabel ρ = n := by
  refine (eq_relabel_of ⟨rfl, rfl, rfl, context.symm, ?_, rfl, ?_⟩ ?_).symm
  · rw [error]
    rfl
  · rw [span, ρ.dummy]
  · rw [hc]
    rfl

theorem relabel_leaf (tag : Tag) (s : String) : (leaf tag s).relabel ρ = leaf tag s :=
  relabel_made rfl rfl ρ.absent rfl

theorem relabel_labelled (tag : Tag) (s : String) {l : String} (hl : l ∈ ownLabels) :
    ((leaf tag s).withContext l).relabel ρ = (leaf tag s).withContext l :=
  relabel_made rfl rfl (ρ.label l hl) rfl

theorem Renamed.fail {n n' : Node} (h : n.Renamed ρ n') (d : Diagnostic) :
    (n.fail d).Renamed ρ (n'.fail (d.mapSpan ρ.span)) :=
  ⟨h.tag, h.payload, h.ty, h.context, rfl, h.done, h.span⟩

end Node

end ContractTyping
