import ContractTyping.Proofs.SideBySide
import ContractTyping.Proofs.Simulation

/-!
Spans and contexts are carried and never interpreted: renaming them before the pass or after it
comes to the same. Main statements: `Engine.relabel_visit`, the two runs simulate each other under a
relabeling; and `Node.relabel_eq_self`, by which every span of a finished tree is a span of the tree
before or the dummy.
-/

namespace ContractTyping

namespace Node

variable {ρ : Relabeling}

theorem normalizeValue_relabel (n : Node) :
    (n.relabel ρ).normalizeValue = n.normalizeValue.relabel ρ := by
  induction n using induction_on_children with
  | step n ih =>
    obtain ⟨tag, children, payload⟩ := n
    cases children with
    | nil => rfl
    | cons c cs =>
      have head := ih c List.mem_cons_self
      have rest : cs.map (normalizeValue ∘ relabel ρ) = cs.map (relabel ρ ∘ normalizeValue) :=
        List.map_congr_left fun d hd => ih d (List.mem_cons_of_mem _ hd)
      simp only [relabel, relabelEach, normalizeValue, normalizeValues_eq_map, relabelEach_eq_map,
        List.map_map, head, rest]

theorem literalType_relabel (n : Node) : (n.relabel ρ).literalType = n.literalType := by
  induction n using induction_on_children with
  | step n ih =>
    obtain ⟨tag, children, payload⟩ := n
    cases children with
    | nil => rfl
    | cons c cs =>
      have head := ih c List.mem_cons_self
      have rest : cs.map (literalType ∘ relabel ρ) = cs.map literalType :=
        List.map_congr_left fun d hd => ih d (List.mem_cons_of_mem _ hd)
      simp only [relabel, relabelEach, literalType, literalTypes_eq_map, relabelEach_eq_map,
        List.map_map, head, rest]

/-! ## Spans of a tree -/

/-- The span of a node and that of its diagnostic. -/
def ownSpans (n : Node) : List Span := n.span :: (n.error.map Diagnostic.span).toList

/-- All spans in a tree, those inside diagnostics included. -/
def spans (n : Node) : List Span := n.nodes.flatMap ownSpans

theorem ownSpans_relabel (n : Node) : (n.relabel ρ).ownSpans = n.ownSpans.map ρ.span := by
  have head : n.Renamed ρ (n.relabel ρ) := n.renamed_relabel
  unfold ownSpans
  rw [head.span, head.error]
  cases n.error with
  | none => rfl
  | some d => simp [Diagnostic.span_mapSpan]

theorem spans_eq (n : Node) : n.spans = n.ownSpans ++ n.children.flatMap spans := by
  unfold spans
  rw [nodes_eq, List.flatMap_cons, List.flatMap_assoc]

theorem spans_relabel (n : Node) : (n.relabel ρ).spans = n.spans.map ρ.span := by
  induction n using induction_on_children with
  | step n ih =>
    rw [spans_eq, spans_eq n, ownSpans_relabel, relabel_children, List.map_append, List.flatMap_map,
      List.map_flatMap]
    congr 1
    exact List.flatMap_congr ih

/-- A renaming that fixes the spans of a tree and all contexts fixes the tree. -/
theorem relabel_eq_self {n : Node} (contexts : ∀ c, ρ.context c = c)
    (fixed : ∀ s ∈ n.spans, ρ.span s = s) : n.relabel ρ = n := by
  induction n using induction_on_children with
  | step n ih =>
    rw [spans_eq] at fixed
    have own : ∀ s ∈ n.ownSpans, ρ.span s = s := fun s hs => fixed s (List.mem_append_left _ hs)
    refine (eq_relabel_of ⟨rfl, rfl, rfl, (contexts _).symm, ?_, rfl, ?_⟩ ?_).symm
    · cases he : n.error with
      | none => rfl
      | some d =>
        have inner : d.span ∈ n.ownSpans := by simp [ownSpans, he]
        exact congrArg some (Diagnostic.mapSpan_eq_self (own _ inner)).symm
    · exact (own _ List.mem_cons_self).symm
    · have each : ∀ c ∈ n.children, c.relabel ρ = c := fun c hc => ih c hc fun s hs =>
        fixed s (List.mem_append_right _ (List.mem_flatMap.mpr ⟨c, hc, hs⟩))
      exact ((List.map_congr_left each).trans (List.map_id' _)).symm

end Node

/-! ## The relabelled run -/

theorem eq_map_of_forall₂ {f : α → β} {as : List α} {bs : List β}
    (h : List.Forall₂ (fun a b => b = f a) as bs) : bs = as.map f := by
  induction h with
  | nil => rfl
  | cons head _ ih => rw [List.map_cons, head, ih]

theorem Rule.guardOf_relabel (config : Config) (ρ : Relabeling) (p : Node) :
    guardOf config (p.relabel ρ) = (guardOf config p).relabel ρ := by
  simp only [guardOf, Node.relabel, Node.relabelEach, ρ.absent, p.renamed_relabel.span,
    Option.map_none, Node.relabel_leaf]

namespace Comparison

open Pass

variable (ρ : Relabeling) (config : Config)

/-- Everything in the second run is relabelled. -/
def relabeled : Comparison :=
  simulation ρ (fun n n' => n' = n.relabel ρ) (fun b b' => b' = b.relabel ρ)
    (fun gs gs' => gs' = gs.map (Node.relabel ρ) ∧ ∀ g ∈ gs, g.tag = .require)
    (fun ps ps' => ps' = ps.map (Node.relabel ρ)) Eq

theorem eq_logs : LawfulLogs Eq := ⟨fun _ => rfl, fun h h' => by rw [h, h']⟩

theorem isConstructor_relabel (n : Node) :
    Rule.isConstructor config (n.relabel ρ) = Rule.isConstructor config n := by
  unfold Rule.isConstructor
  rw [Node.relabel_children]
  rcases n.children with _ | ⟨first, _ | ⟨display, _ | ⟨third, rest⟩⟩⟩
  · rfl
  · rfl
  · simp only [List.map_cons, List.map_nil, Node.relabel_text]
  · rfl

theorem lawfulNodes_relabeled : LawfulNodes (relabeled ρ) { config } { config } where
  renamed := by
    rintro n n' rfl
    exact n.renamed_relabel
  text := by
    rintro n n' rfl
    exact n.relabel_text
  leaf := by
    rintro n n' rfl
    rw [Node.relabel_children, List.map_eq_nil_iff]
  constructor := by
    rintro n n' rfl
    exact isConstructor_relabel ρ config n
  untouched _ := rfl
  rebuilt h := Node.eq_relabel_of h.head (eq_map_of_forall₂ h.children)
  function := by
    intro n n' name name' param param' body body' middle middle' markers _ head hc hc' hname hmiddle
      hparam hbody hmarkers
    refine Node.eq_relabel_of head ?_
    rw [hc, hc', hname, eq_map_of_forall₂ hmiddle, hparam, hbody]
    nth_rewrite 1 [eq_map_of_forall₂ hmarkers]
    simp only [List.map_cons, List.map_append]
  sealed := by
    intro b b' gs gs' os os' _ _ head hc hc' hg hos
    refine Node.eq_relabel_of head ?_
    rw [hc, hc', hg.1, eq_map_of_forall₂ hos, List.map_append]
  guardKinds := by
    rintro gs gs' ⟨rfl, kinds⟩
    refine ⟨kinds, List.forall_mem_map.mpr fun g hg => ?_⟩
    rw [g.renamed_relabel.tag, kinds g hg]

theorem lawfulGuards_relabeled : LawfulGuards (relabeled ρ) { config } { config } where
  awaitGuard := by
    rintro ty p p' rfl
    unfold Rule.awaitGuard
    split
    · refine Simulates.modify eq_logs fun env env' alike =>
        ⟨alike.scope, alike.imports, alike.displayNames, alike.decls, ?_⟩
      have waiting := alike.unguarded
      simp only [Env.updateLedger, Ledger.addUnguarded, waiting, List.map_append, List.map_cons,
        List.map_nil]
    · exact Simulates.pure eq_logs (V := fun _ _ => True) trivial
  takeGuards := by
    refine Simulates.bind eq_logs (V := fun ps ps' => ps' = ps.map (Node.relabel ρ))
      (Simulates.asks eq_logs fun _ _ alike => alike.unguarded) fun ps ps' _ same => ?_
    refine Simulates.seq eq_logs (Simulates.modify eq_logs fun env env' alike =>
      ⟨alike.scope, alike.imports, alike.displayNames, alike.decls, rfl⟩) ?_
    subst same
    rw [List.map_map, List.map_map]
    refine Simulates.seq eq_logs (Simulates.emitAll eq_logs _) (Simulates.pure eq_logs ⟨?_, ?_⟩)
    · rw [List.map_map]
      exact List.map_congr_left fun p _ => Rule.guardOf_relabel config ρ p
    · exact List.forall_mem_map.mpr fun p _ => rfl
  announceGuards := by
    rintro function gs gs' ⟨rfl, _⟩
    unfold Rule.announceGuards
    rw [List.isEmpty_map, List.length_map]
    exact Simulates.emitAll eq_logs _
  passOver := by
    rintro gs gs' ⟨rfl, _⟩
    rw [List.map_map]
    have same : gs.map ((fun g : Node => Event.dispatch g.tag) ∘ Node.relabel ρ) =
        gs.map fun g => .dispatch g.tag :=
      List.map_congr_left fun g _ => congrArg Event.dispatch g.renamed_relabel.tag
    rw [same]
    exact Simulates.emitAll eq_logs _

theorem lawful_relabeled : Lawful (relabeled ρ) { config } { config } where
  toLawfulNodes := lawfulNodes_relabeled ρ config
  toLawfulRuns := lawfulRuns_simulation eq_logs rfl rfl rfl (lawfulGuards_relabeled ρ config)

end Comparison

namespace Engine

/-- The visit of a relabelled tree simulates the visit of the tree. -/
theorem relabel_visit (config : Config) (ρ : Relabeling) (n : Node) (expected : Option Ty) :
    (Comparison.relabeled ρ).run (fun n n' => n' = n.relabel ρ) (visit { config } n expected)
      (visit { config } (n.relabel ρ) expected) := by
  refine Comparison.like_visit (Comparison.lawful_relabeled ρ config) (H := fun _ => True) ?_ ?_ rfl
    (fun _ _ => trivial) n expected trivial
  · rintro n c o o' ex - - - - rfl
    refine ⟨o.normalizeValue_relabel, ?_⟩
    rw [Node.normalizeValue_relabel, Node.literalType_relabel]
  · intro n _ _
    exact Comparison.lawfulUnits_simulation Comparison.eq_logs rfl

theorem checkUnit_relabel_eq (config : Config) (ρ : Relabeling) (tree : Node) :
    (checkUnit { config } (tree.relabel ρ)).value = (checkUnit { config } tree).value.relabel ρ ∧
      (checkUnit { config } (tree.relabel ρ)).log = (checkUnit { config } tree).log := by
  have start : Env.Alike (fun n n' => n' = n.relabel ρ)
      (fun ps ps' => ps' = ps.map (Node.relabel ρ)) (.ofConfig config) (.ofConfig config) :=
    ⟨rfl, rfl, rfl, .nil, rfl⟩
  obtain ⟨value, _, log⟩ := relabel_visit config ρ tree (some .void) _ _ start
  exact ⟨value, log.symm⟩

/-- **Spans and contexts are carried.** To relabel a unit and run the pass comes to the same as to
run the pass and relabel, and the log is the same. So every span of a finished unit, on a node or in
a diagnostic, is the dummy or stood in the unit before. -/
theorem checkUnit_relabel (config : Config) (ρ : Relabeling) (tree : Node) :
    (checkUnit { config } (tree.relabel ρ)).value = (checkUnit { config } tree).value.relabel ρ ∧
      (checkUnit { config } (tree.relabel ρ)).log = (checkUnit { config } tree).log ∧
      ∀ s ∈ (checkUnit { config } tree).value.spans, s = .dummy ∨ s ∈ tree.spans := by
  obtain ⟨value, log⟩ := checkUnit_relabel_eq config ρ tree
  refine ⟨value, log, fun s hs => ?_⟩
  -- Spans that do not stand in the unit are sent to the dummy: this leaves the unit as it is.
  have fixed : tree.relabel (.keeping tree.spans) = tree :=
    Node.relabel_eq_self (fun _ => rfl) fun s hs => if_pos hs
  have same := (checkUnit_relabel_eq config (.keeping tree.spans) tree).1
  rw [fixed] at same
  rw [same, Node.spans_relabel] at hs
  obtain ⟨t, -, rfl⟩ := List.mem_map.mp hs
  by_cases ht : t ∈ tree.spans
  · exact .inr (by simp [Relabeling.keeping, ht])
  · exact .inl (if_neg ht)

end Engine

end ContractTyping
