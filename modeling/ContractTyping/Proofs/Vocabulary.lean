import ContractTyping.Proofs.TypeNames
import ContractTyping.Proofs.Visit

/-!
The words of a tree: the kinds of its nodes and the names in their types. A visit adds a few words
of its own and, where an assumption is bound, those that the literal spells; all others come from
the tree, the scope or the expected type. Main statement: `Engine.speaks_visit`, a vocabulary with
the words of the pass is not left, as long as the literals that are bound keep to it.
-/

namespace ContractTyping

/-- Words that may be used. What literals may spell is a matter of the events in the log. -/
structure Vocabulary where
  kind : Tag → Prop
  name : String → Prop
  admits : Event → Prop
  known : ∀ t, t.isKnown = true → kind t
  void : name "void"
  bool : name "bool"
  int256 : name "int256"
  literal : ∀ (x : String) (v : Node), admits (.boundAssumption x v.normalizeValue.literalType) →
    ∀ s ∈ v.normalizeValue.literalType.names, name s

variable {V : Vocabulary}

namespace Ty

/-- The names in the type are in the vocabulary. -/
def Within (V : Vocabulary) (t : Ty) : Prop := ∀ s ∈ t.names, V.name s

theorem within_unknown : unknown.Within V := by simp [Within]

theorem within_void : void.Within V := by simpa [Within, void] using V.void

theorem within_bool : bool.Within V := by simpa [Within, bool] using V.bool

theorem within_int256 : int256.Within V := by simpa [Within, int256] using V.int256

theorem within_function {params : List Ty} {returns : Option Ty} :
    (function params returns).Within V ↔
      (∀ t ∈ params, t.Within V) ∧ ∀ t ∈ returns, t.Within V := by
  simp only [Within, names_function, List.mem_append, List.mem_flatMap, Option.mem_toList]
  constructor
  · intro h
    exact ⟨fun t ht s hs => h s (.inl ⟨t, ht, hs⟩), fun t ht s hs => h s (.inr ⟨t, ht, hs⟩)⟩
  · rintro ⟨first, second⟩ s (⟨t, ht, hs⟩ | ⟨t, ht, hs⟩)
    · exact first t ht s hs
    · exact second t ht s hs

theorem within_struct {name : String} {fields : List Ty} (h : ∀ t ∈ fields, t.Within V) :
    (struct name fields).Within V := by
  intro s hs
  rw [names_struct] at hs
  obtain ⟨t, ht, hs⟩ := List.mem_flatMap.mp hs
  exact h t ht s hs

theorem within_orVoid {t : Option Ty} (h : ∀ ty ∈ t, ty.Within V) : (orVoid t).Within V := by
  cases t with
  | none => exact within_void
  | some ty => exact h ty rfl

theorem within_orUnknown {t : Option Ty} (h : ∀ ty ∈ t, ty.Within V) : (orUnknown t).Within V := by
  cases t with
  | none => exact within_unknown
  | some ty => exact h ty rfl

theorem Within.params {t : Ty} (h : t.Within V) : ∀ p ∈ t.params, p.Within V := by
  cases t with
  | function ps r => exact (within_function.mp h).1
  | _ => simp [Ty.params]

end Ty

namespace Node

/-- Kinds and types are in the vocabulary, at every node of the tree. -/
def Within (V : Vocabulary) (n : Node) : Prop :=
  n.All fun m => V.kind m.tag ∧ ∀ ty ∈ m.ty, ty.Within V

theorem within_iff {n : Node} :
    n.Within V ↔ (V.kind n.tag ∧ ∀ ty ∈ n.ty, ty.Within V) ∧ ∀ c ∈ n.children, c.Within V :=
  all_iff

theorem Within.child {n c : Node} (h : n.Within V) (hc : c ∈ n.children) : c.Within V :=
  All.child h hc

/-- A node of the same kind, with other children and another type. -/
theorem Within.rebuild {n out : Node} (h : n.Within V) (tag : out.tag = n.tag)
    (types : ∀ ty ∈ out.ty, ty.Within V) (children : ∀ c ∈ out.children, c.Within V) :
    out.Within V :=
  within_iff.mpr ⟨⟨tag ▸ h.self.1, types⟩, children⟩

theorem Within.withType {n : Node} (h : n.Within V) {t : Option Ty}
    (types : ∀ ty ∈ t, ty.Within V) : (n.withType t).Within V :=
  h.rebuild rfl types fun _ hc => h.child hc

theorem Within.adopt {n : Node} (h : n.Within V) {expected : Option Ty}
    (he : ∀ ty ∈ expected, ty.Within V) : (n.adopt expected).Within V :=
  h.withType (by simpa using Ty.within_orVoid he)

theorem Within.fail {n : Node} (h : n.Within V) (error : Diagnostic) : (n.fail error).Within V :=
  h.rebuild rfl h.self.2 fun _ hc => h.child hc

/-- A node that the pass makes itself. -/
theorem within_made {n : Node} (known : n.tag.isKnown = true) (types : ∀ ty ∈ n.ty, ty.Within V)
    (children : ∀ c ∈ n.children, c.Within V) : n.Within V :=
  within_iff.mpr ⟨⟨V.known n.tag known, types⟩, children⟩

theorem within_leaf {n : Node} (known : n.tag.isKnown = true) (untyped : n.ty = none)
    (hc : n.children = []) : n.Within V :=
  within_made known (by simp [untyped]) (by simp [hc])

theorem within_types {ns : List Node} (h : ∀ n ∈ ns, n.Within V) :
    ∀ t ∈ types ns, t.Within V :=
  List.forall_mem_map.mpr fun n hn => Ty.within_orUnknown (h n hn).self.2

theorem Within.normalizeValue {n : Node} (h : n.Within V) : n.normalizeValue.Within V := by
  refine All.normalizeValue (fun m hm => ?_) h
  rwa [normalizeValue_tag, normalizeValue_ty]

end Node

/-- What is in scope and what waits in the ledger is in the vocabulary. -/
structure Env.Within (V : Vocabulary) (env : Env) : Prop where
  scope : ∀ b ∈ env.scope, b.2.Within V
  decls : ∀ d ∈ env.ledger.decls, d.Within V
  unguarded : ∀ p ∈ env.ledger.unguarded, p.Within V

namespace Env.Within

variable {env : Env} (h : env.Within V)

include h

theorem lookup? {name : String} {ty : Ty} (found : env.lookup? name = some ty) : ty.Within V := by
  obtain ⟨before, after, split, -⟩ := List.lookup_eq_some_iff.mp found
  exact h.scope (name, ty) (by simp [split])

theorem bind (name : String) {ty : Ty} (ht : ty.Within V) : (env.bind name ty).Within V :=
  ⟨List.forall_mem_cons.mpr ⟨ht, h.scope⟩, h.decls, h.unguarded⟩

theorem addDecl {d : Node} (hd : d.Within V) : (env.updateLedger (·.addDecl d)).Within V :=
  ⟨h.scope, List.forall_mem_append.mpr ⟨h.decls, by simpa using hd⟩, h.unguarded⟩

theorem addUnguarded {p : Node} (hp : p.Within V) :
    (env.updateLedger (·.addUnguarded p)).Within V :=
  ⟨h.scope, h.decls, List.forall_mem_append.mpr ⟨h.unguarded, by simpa using hp⟩⟩

end Env.Within

namespace Pass

/-- If the log is admitted, the vocabulary is not left and the value has a property. -/
def Speaks (V : Vocabulary) (G : α → Prop) (p : Pass α) : Prop :=
  ∀ env, env.Within V → (∀ e ∈ (p env).log, V.admits e) → G (p env).value ∧ (p env).env.Within V

namespace Speaks

variable {G : α → Prop} {p : Pass α}

theorem of_keeps (h : p.Keeps (Env.Within V) G) : p.Speaks V G := fun env henv _ => h env henv

theorem pure {a : α} (h : G a) : Speaks V G (pure a) := of_keeps (Keeps.pure h)

theorem bind {H : β → Prop} {f : α → Pass β} (hp : p.Speaks V G)
    (hf : ∀ a, p.Returns a → G a → (f a).Speaks V H) : (p >>= f).Speaks V H := by
  intro env henv admitted
  rw [bind_log] at admitted
  obtain ⟨value, after⟩ := hp env henv fun e he => admitted e (List.mem_append_left _ he)
  exact hf _ (p.returns_self env) value _ after fun e he => admitted e (List.mem_append_right _ he)

theorem seq {H : β → Prop} {q : Pass β} (hp : p.Speaks V fun _ => True) (hq : q.Speaks V H) :
    Speaks V H (do let _ ← p; q) :=
  hp.bind fun _ _ _ => hq

/-- An event is admitted once it is written. -/
theorem emit (e : Event) : (Pass.emit e).Speaks V fun _ => V.admits e :=
  fun _ henv admitted => ⟨admitted e List.mem_cons_self, henv⟩

theorem emitAll (es : List Event) : (Pass.emitAll es).Speaks V fun _ => True :=
  of_keeps (Keeps.emitAll es)

theorem reads (f : Env → α) : (Pass.asks f).Speaks V fun _ => True := of_keeps (Keeps.reads f)

theorem lookup? (name : String) :
    (Pass.lookup? name).Speaks V fun found => ∀ ty ∈ found, ty.Within V :=
  fun _ henv _ => ⟨fun _ hty => henv.lookup? hty, henv⟩

theorem bindName (name : String) {ty : Ty} (h : ty.Within V) :
    (Pass.bindName name ty).Speaks V fun _ => True :=
  of_keeps (Keeps.bindName fun _ henv => henv.bind name h)

theorem updateLedger {f : Ledger → Ledger}
    (h : ∀ l, (f l).decls = l.decls ∧ (f l).unguarded = l.unguarded) :
    (Pass.updateLedger f).Speaks V fun _ => True := by
  refine of_keeps (Keeps.updateLedger fun env henv => ⟨henv.scope, fun d hd => ?_, fun p hp => ?_⟩)
  · exact henv.decls d ((h env.ledger).1 ▸ hd)
  · exact henv.unguarded p ((h env.ledger).2 ▸ hp)

theorem addDecl {d : Node} (h : d.Within V) :
    (Pass.updateLedger (·.addDecl d)).Speaks V fun _ => True :=
  of_keeps (Keeps.updateLedger fun _ henv => henv.addDecl h)

theorem visitAll {visit : Visitor} {expected : Option Ty} {G : Node → Prop} {ms : List Node}
    (h : ∀ m ∈ ms, (visit m expected).Speaks V G) :
    (Rule.visitAll visit ms expected).Speaks V fun os => ∀ o ∈ os, G o := by
  induction ms with
  | nil => exact pure (by simp)
  | cons m ms ih =>
    refine (h m List.mem_cons_self).bind fun o _ ho => ?_
    refine (ih fun k hk => h k (List.mem_cons_of_mem _ hk)).bind fun os _ hos => ?_
    exact pure (List.forall_mem_cons.mpr ⟨ho, hos⟩)

end Speaks

end Pass

/-! ## Rules -/

namespace Rule

open Pass

variable {visit : Visitor} {n : Node} {expected : Option Ty}

theorem speaks_resolving {m : Node} (hm : m.Within V) {name : String} {found : Ty → Pass Node}
    (h : ∀ ty : Ty, ty.Within V → (found ty).Speaks V (Node.Within V)) :
    (resolving m name found).Speaks V (Node.Within V) := by
  refine (Speaks.lookup? name).bind fun ty _ hty => ?_
  cases ty with
  | some ty => exact h ty (hty ty rfl)
  | none => exact (Speaks.emit _).bind fun _ _ _ => Speaks.pure (hm.fail _)

theorem within_memoryMarker (ty : Ty) : ∀ c ∈ memoryMarker ty, c.Within V := by
  unfold memoryMarker
  split
  · exact List.forall_mem_singleton.mpr (Node.within_leaf rfl rfl rfl)
  · simp

theorem speaks_awaitGuard (config : Config) (ty : Ty) {name : Node} (h : name.Within V) :
    (awaitGuard config ty name).Speaks V fun _ => True := by
  unfold awaitGuard
  split
  · exact Speaks.of_keeps (Keeps.updateLedger fun _ henv => henv.addUnguarded h)
  · exact Speaks.pure trivial

theorem within_resultType {os : List Node} (h : ∀ o ∈ os, o.Within V) :
    (resultType os).Within V := by
  unfold resultType
  split
  · rename_i last hl
    split
    · exact Ty.within_orUnknown (h last (List.mem_of_getLast? hl)).self.2
    · exact Ty.within_void
  · exact Ty.within_void

variable (hn : n.Within V) (he : ∀ ty ∈ expected, ty.Within V)

section Unvisited

include hn

theorem speaks_raw : (raw visit n expected).Speaks V (Node.Within V) := by
  refine (Speaks.lookup? n.text).bind fun ty _ hty => ?_
  cases ty with
  | some ty => exact Speaks.pure (hn.withType hty)
  | none => exact (Speaks.emit _).bind fun _ _ _ => Speaks.pure (hn.withType hty)

theorem speaks_pair : (pair visit n expected).Speaks V (Node.Within V) := by
  unfold pair
  split
  · rename_i first name rest hc
    have hname := hn.child (c := name) (by simp [hc])
    refine speaks_resolving hn fun ty hty => Speaks.pure (hn.rebuild rfl (by simpa using hty) ?_)
    simp only [List.forall_mem_cons]
    exact ⟨hn.child (by simp [hc]), hname.withType (by simpa using hty),
      fun c h => hn.child (by simp [hc, h])⟩
  · exact Speaks.pure (hn.fail _)

theorem speaks_fdPair (config : Config) :
    (fdPair config visit n expected).Speaks V (Node.Within V) := by
  unfold fdPair
  split
  · exact Speaks.pure (hn.fail _)
  · rename_i name hl
    refine speaks_resolving hn fun ty hty => ?_
    have typed : (name.withType (some ty)).Within V :=
      (hn.child (List.mem_of_getLast? hl)).withType (by simpa using hty)
    refine (speaks_awaitGuard config ty typed).seq (Speaks.pure ?_)
    refine hn.rebuild rfl (by simpa using hty) (List.forall_mem_append.mpr ⟨?_, ?_⟩)
    · exact fun c h => hn.child (List.dropLast_subset _ h)
    · exact List.forall_mem_cons.mpr ⟨typed, within_memoryMarker ty⟩

include he

theorem speaks_importDecl : (importDecl visit n expected).Speaks V (Node.Within V) := by
  unfold importDecl
  split
  · split
    · refine (Speaks.emit _).bind fun _ _ _ => ?_
      exact Speaks.seq (Speaks.updateLedger fun _ => ⟨rfl, rfl⟩) (Speaks.pure (hn.adopt he))
    · exact Speaks.pure (hn.fail _)
  · exact Speaks.pure (hn.fail _)

theorem speaks_functionName : (functionName visit n expected).Speaks V (Node.Within V) := by
  unfold functionName
  split
  · exact Speaks.seq (Speaks.updateLedger fun _ => ⟨rfl, rfl⟩) (Speaks.pure (hn.adopt he))
  · exact Speaks.pure (hn.adopt he)

end Unvisited

section Below

variable (below : ∀ m : Node, m.Inside n → ∀ ex : Option Ty, (∀ ty ∈ ex, ty.Within V) →
  (visit m ex).Speaks V (Node.Within V))

include below

theorem speaks_children {ms : List Node} (h : ms ⊆ n.children) {ex : Option Ty}
    (hex : ∀ ty ∈ ex, ty.Within V) :
    (visitAll visit ms ex).Speaks V fun os => ∀ o ∈ os, o.Within V :=
  Speaks.visitAll fun m hm => below m (Node.inside_of_child (h hm)) ex hex

theorem speaks_unitChildren :
    (unitChildren visit n.children).Speaks V fun os => ∀ o ∈ os, o.Within V := by
  have void : ∀ ty ∈ some Ty.void, ty.Within V := by simpa using Ty.within_void
  unfold unitChildren
  split
  · exact Speaks.pure (by simp)
  · rename_i last hl
    split
    · refine (below last (Node.inside_of_child (List.mem_of_getLast? hl)) _ void).bind
        fun last' _ h => ?_
      refine (speaks_children below (List.dropLast_subset _) void).bind fun others _ ho => ?_
      exact Speaks.pure (List.forall_mem_append.mpr ⟨ho, by simpa using h⟩)
    · exact speaks_children below (List.Subset.refl _) void

include hn

/-- Visiting all children and returning the node with them, under a type made of them. -/
theorem speaks_each {ex : Option Ty} (hex : ∀ ty ∈ ex, ty.Within V) (rebuild : List Node → Node)
    (h : ∀ os, (∀ o ∈ os, o.Within V) → (rebuild os).tag = n.tag ∧ (rebuild os).children = os ∧
      ∀ ty ∈ (rebuild os).ty, ty.Within V) :
    Speaks V (Node.Within V) (do let os ← visitAll visit n.children ex; return rebuild os) := by
  refine (speaks_children below (List.Subset.refl _) hex).bind fun os _ hos => Speaks.pure ?_
  obtain ⟨tag, children, types⟩ := h os hos
  exact hn.rebuild tag types (by rwa [children])

theorem speaks_fdBody : (fdBody visit n expected).Speaks V (Node.Within V) := by
  refine speaks_each hn below (by simp) _ fun os hos => ⟨rfl, rfl, ?_⟩
  simpa [sealBody] using within_resultType hos

theorem speaks_assign : (assign visit n expected).Speaks V (Node.Within V) := by
  unfold assign
  split
  · rename_i target value rest hc
    have htarget := below target (Node.inside_of_child (by simp [hc])) none (by simp)
    have hvalue := below value (Node.inside_of_child (by simp [hc]))
    refine htarget.bind fun target' _ ht => ?_
    refine (hvalue target'.ty ht.self.2).bind fun value' _ hv => Speaks.pure ?_
    refine hn.rebuild rfl (by simpa using Ty.within_void) ?_
    simp only [List.forall_mem_cons]
    exact ⟨ht, hv, fun c h => hn.child (by simp [hc, h])⟩
  · exact Speaks.pure (hn.fail _)

theorem speaks_mapping (arity : Nat) :
    (mapping arity visit n expected).Speaks V (Node.Within V) := by
  unfold mapping
  split
  · exact Speaks.pure (hn.fail _)
  · rename_i operand rest hd
    have hrest : ∀ c ∈ operand :: rest, c ∈ n.children := fun c hc =>
      List.mem_of_mem_drop (hd ▸ hc)
    have hoperand := below operand (Node.inside_of_child (hrest operand List.mem_cons_self))
    refine (hoperand none (by simp)).bind fun operand' _ ho => ?_
    have parts : ∀ indices : List Node, (∀ c ∈ indices, c.Within V) →
        ∀ c ∈ indices ++ operand' :: rest, c.Within V := by
      intro indices hi
      simp only [List.forall_mem_append, List.forall_mem_cons]
      exact ⟨hi, ho, fun c h => hn.child (hrest c (List.mem_cons_of_mem _ h))⟩
    split
    · rename_i found
      obtain ⟨ty, hty, mapping⟩ := Option.bind_eq_some_iff.mp found
      have returns := (Ty.asMapping_eq_some_iff.mp mapping).1 ▸ ho.self.2 ty hty
      refine (speaks_children below (List.take_subset _ _) (by simp)).bind fun indices _ hi => ?_
      refine Speaks.pure (hn.rebuild rfl ?_ (parts indices hi))
      simpa using (Ty.within_function.mp returns).2
    · refine Speaks.pure (hn.rebuild rfl hn.self.2 (parts _ fun c h => ?_))
      exact hn.child (List.mem_of_mem_take h)

include he

theorem speaks_source : (source visit n expected).Speaks V (Node.Within V) := by
  have fresh : (Pass.updateLedger fun _ => {}).Speaks V fun _ => True :=
    Speaks.of_keeps (Keeps.updateLedger fun _ henv => ⟨henv.scope, by simp [Env.updateLedger],
      by simp [Env.updateLedger]⟩)
  have taken : takeDecls.Speaks V fun decls => ∀ d ∈ decls, d.Within V :=
    fun _ henv _ => ⟨henv.decls, henv.scope, fun _ h => absurd h List.not_mem_nil, henv.unguarded⟩
  refine fresh.seq ((Speaks.emit _).bind fun _ _ _ => ?_)
  refine (speaks_unitChildren below).bind fun children _ hc => ?_
  refine taken.bind fun decls _ hd => (Speaks.emit _).bind fun _ _ _ => Speaks.pure ?_
  have hoisted : (hoistedDecls decls).Within V :=
    Node.within_made rfl (by simpa [hoistedDecls] using Ty.within_void) hd
  refine hn.rebuild rfl (hn.adopt he).self.2 ?_
  exact List.forall_mem_append.mpr ⟨hc, by simpa using hoisted⟩

theorem speaks_block : (block visit n expected).Speaks V (Node.Within V) :=
  speaks_each hn below he _ fun _ _ => ⟨rfl, rfl, (hn.adopt he).self.2⟩

theorem speaks_importList : (importList visit n expected).Speaks V (Node.Within V) := by
  unfold importList
  split
  · refine Speaks.pure (hn.rebuild rfl (hn.adopt he).self.2 ?_)
    exact List.forall_mem_singleton.mpr (Node.within_leaf rfl rfl rfl)
  · exact speaks_block hn he below

theorem speaks_variableDecl : (variableDecl visit n expected).Speaks V (Node.Within V) := by
  refine (speaks_children below (List.Subset.refl _) (by simp)).bind fun children _ hc => ?_
  refine (Speaks.reads _).bind fun imports _ _ => Speaks.pure ?_
  refine hn.rebuild rfl (hn.adopt he).self.2 ?_
  refine List.forall_mem_append.mpr ⟨hc, List.forall_mem_map.mpr fun i _ => ?_⟩
  refine Node.within_made rfl (by simp [Import.toPair]) ?_
  simp only [Import.toPair, List.forall_mem_cons]
  exact ⟨Node.within_leaf rfl rfl rfl, Node.within_leaf rfl rfl rfl, Node.within_leaf rfl rfl rfl,
    by simp⟩

theorem speaks_fdParam : (fdParam visit n expected).Speaks V (Node.Within V) := by
  refine speaks_each hn below he _ fun os hos => ⟨rfl, rfl, ?_⟩
  simpa [sealParams] using Ty.within_function.mpr ⟨Node.within_types hos, by simp⟩

theorem speaks_finishing : (finishing visit n expected).Speaks V (Node.Within V) :=
  speaks_each hn below he _ fun _ _ => ⟨rfl, rfl, hn.self.2⟩

theorem speaks_returnStatement : (returnStatement visit n expected).Speaks V (Node.Within V) := by
  unfold returnStatement
  split
  · rename_i operand rest hc
    refine (below operand (Node.inside_of_child (by simp [hc])) expected he).bind
      fun operand' _ ho => ?_
    have rebuilt : Node.Within V { n with children := operand' :: rest } := by
      refine hn.rebuild rfl hn.self.2 (List.forall_mem_cons.mpr ⟨ho, fun c h => ?_⟩)
      exact hn.child (by simp [hc, h])
    dsimp only
    split
    · rename_i ty hty
      exact Speaks.pure (rebuilt.withType (hty ▸ ho.self.2))
    · refine speaks_resolving rebuilt fun ty hty => Speaks.pure (rebuilt.withType ?_)
      simpa using hty
    · exact Speaks.pure (rebuilt.withType (by simpa using Ty.within_unknown))
  · exact Speaks.pure (hn.fail _)

theorem speaks_recordStatement : (recordStatement visit n expected).Speaks V (Node.Within V) := by
  unfold recordStatement
  split
  · rename_i target event rest hc
    refine (below target (Node.inside_of_child (by simp [hc])) expected he).bind
      fun target' _ ht => ?_
    refine (Speaks.reads _).bind fun display _ _ => Speaks.pure ?_
    refine hn.rebuild rfl (by simpa using Ty.within_void) ?_
    simp only [List.cons_append, List.forall_mem_cons, List.forall_mem_append, List.forall_mem_map]
    exact ⟨ht, hn.child (by simp [hc]), fun c h => hn.child (by simp [hc, h]),
      fun _ _ => Node.within_leaf rfl rfl rfl⟩
  · exact Speaks.pure (hn.fail _)

theorem speaks_structDefine : (structDefine visit n expected).Speaks V (Node.Within V) := by
  unfold structDefine
  split
  · rename_i name fields hc
    have sub : fields ⊆ n.children := fun c h => by simp [hc, h]
    refine (speaks_children below sub he).bind fun fields' _ h => ?_
    have decl : (Node.adopt { n with children := name :: fields' } expected).Within V := by
      refine hn.rebuild rfl (hn.adopt he).self.2 ?_
      exact List.forall_mem_cons.mpr ⟨hn.child (by simp [hc]), h⟩
    refine (Speaks.bindName _ (Ty.within_struct (Node.within_types h))).seq ?_
    refine (Speaks.emit _).bind fun _ _ _ => ?_
    exact (Speaks.addDecl decl).seq (Speaks.pure decl)
  · exact Speaks.pure (hn.fail _)

theorem speaks_enumType (config : Config) :
    (enumType config visit n expected).Speaks V (Node.Within V) := by
  refine (speaks_children below (List.Subset.refl _) he).bind fun children _ hc => ?_
  refine (Speaks.reads _).bind fun generated _ _ => ?_
  have name : ((Node.leaf .text generated).withContext "name").Within V :=
    Node.within_leaf rfl rfl rfl
  have elements : Node.Within V { tag := .enumElement, children, context := some "data" } :=
    Node.within_made rfl (by simp) hc
  have define : Node.Within V { tag := .enumDefine, children := [_, _], span := n.span } :=
    Node.within_made rfl (by simp)
      (List.forall_mem_cons.mpr ⟨elements, List.forall_mem_singleton.mpr name⟩)
  refine (Speaks.emit _).bind fun _ _ _ => ?_
  refine (Speaks.addDecl (define.adopt he)).seq (Speaks.pure ?_)
  refine hn.rebuild rfl (hn.adopt he).self.2 ?_
  exact List.forall_mem_append.mpr ⟨hc, List.forall_mem_singleton.mpr name⟩

/-- The only place where new names come in, and the log tells of them. -/
theorem speaks_assumeDecl : (assumeDecl visit n expected).Speaks V (Node.Within V) := by
  unfold assumeDecl
  split
  · rename_i name value rest hc
    have hname := below name (Node.inside_of_child (by simp [hc])) expected he
    have hvalue := below value (Node.inside_of_child (by simp [hc])) expected he
    have sub : rest ⊆ n.children := fun c h => by simp [hc, h]
    refine hname.bind fun name' _ hn' => hvalue.bind fun value' _ hv => ?_
    refine (speaks_children below sub he).bind fun rest' _ hrest => ?_
    -- The event stands in the log before the name is bound, so it is admitted.
    refine (Speaks.emit _).bind fun _ _ admitted => ?_
    refine (Speaks.bindName _ (V.literal _ value' admitted)).seq (Speaks.pure ?_)
    refine hn.rebuild rfl (by simpa using Ty.within_void) ?_
    simp only [List.forall_mem_cons]
    exact ⟨hn', hv.normalizeValue, hrest⟩
  · exact Speaks.pure (hn.fail _)

end Below

/-! ## Functions -/

theorem within_guardOf (config : Config) {param : Node} (h : param.Within V) :
    (guardOf config param).Within V := by
  refine Node.within_made rfl (by simp [guardOf]) (List.forall_mem_singleton.mpr ?_)
  refine Node.within_made rfl (by simp) ?_
  simp only [List.forall_mem_cons]
  exact ⟨h, Node.within_leaf rfl rfl rfl, Node.within_leaf rfl rfl rfl, by simp⟩

theorem speaks_takeGuards (config : Config) :
    (takeGuards config).Speaks V fun guards => ∀ g ∈ guards, g.Within V := by
  intro env henv _
  refine ⟨List.forall_mem_map.mpr fun p hp => within_guardOf config (henv.unguarded p hp), ?_⟩
  exact ⟨henv.scope, henv.decls, fun _ h => absurd h List.not_mem_nil⟩

theorem within_markers (config : Config) (name body : Node) {returns : Ty} (h : returns.Within V) :
    ∀ c ∈ markers config name body returns, c.Within V := by
  unfold markers
  refine List.forall_mem_append.mpr ⟨?_, ?_⟩
  · split
    · simp
    · refine List.forall_mem_singleton.mpr (Node.within_made rfl ?_ (by simp [Node.withType,
        Node.withContext, Node.leaf]))
      simpa [Node.withType] using h
  · split
    · simp
    · refine List.forall_mem_cons.mpr ⟨Node.within_leaf rfl rfl rfl, ?_⟩
      split
      · exact List.forall_mem_singleton.mpr (Node.within_leaf rfl rfl rfl)
      · simp

theorem within_paramTypes {param : Node} (hp : param.Within V)
    (he : ∀ ty ∈ expected, ty.Within V) : ∀ t ∈ paramTypes param expected, t.Within V := by
  have own : ∀ t ∈ param.ty.elim [] Ty.params, t.Within V := by
    cases h : param.ty with
    | none => simp
    | some ty => exact (hp.self.2 ty h).params
  unfold paramTypes
  split
  · simpa using he
  · exact own

section Function

variable (below : ∀ m : Node, m.Inside n → ∀ ex : Option Ty, (∀ ty ∈ ex, ty.Within V) →
  (visit m ex).Speaks V (Node.Within V))

include below

theorem speaks_paramBlock {raw : Node} (hr : raw ∈ n.children) :
    (paramBlock visit raw).Speaks V (Node.Within V) := by
  have visits := Speaks.visitAll fun m hm => below m (inside_of_mem_params hr hm) none (by simp)
  refine (Speaks.emit _).bind fun _ _ _ => visits.bind fun os _ hos => Speaks.pure ?_
  refine Node.within_made rfl ?_ hos
  simpa [sealParams] using Ty.within_function.mpr ⟨Node.within_types hos, by simp⟩

theorem speaks_bodyBlock {raw : Node} (hr : raw ∈ n.children) {guards : List Node}
    (hg : ∀ g ∈ guards, g.Within V) : (bodyBlock visit raw guards).Speaks V (Node.Within V) := by
  have visits := Speaks.visitAll fun m hm => below m (inside_of_mem_statements hr hm) none (by simp)
  refine (Speaks.emit _).bind fun _ _ _ => (Speaks.emitAll _).seq ?_
  refine visits.bind fun os _ hos => Speaks.pure ?_
  have children := List.forall_mem_append.mpr ⟨hg, hos⟩
  refine Node.within_made rfl ?_ children
  simpa [sealBody] using within_resultType children

include hn he

theorem speaks_functionDecl (config : Config) :
    (functionDecl config visit n expected).Speaks V (Node.Within V) := by
  unfold functionDecl
  split
  · rename_i name next more hc
    have hraw := rawBody_mem_children hc
    have hname := below name (Node.inside_of_child (by simp [hc])) expected he
    have hmiddle : ∀ c ∈ (next :: more).dropLast, c.Within V := fun c h =>
      hn.child (hc ▸ List.mem_cons_of_mem _ (List.dropLast_subset _ h))
    refine hname.bind fun name' _ hname => ?_
    refine (speaks_paramBlock below hraw).bind fun param _ hparam => ?_
    refine (speaks_takeGuards config).bind fun guards _ hguards => ?_
    refine (Speaks.emitAll _).seq ?_
    refine (speaks_bodyBlock below hraw hguards).bind fun body _ hbody => ?_
    have returns := Ty.within_orVoid hbody.self.2
    have function : (Ty.function (paramTypes param expected) (some (Ty.orVoid body.ty))).Within V :=
      Ty.within_function.mpr ⟨within_paramTypes hparam he, by simpa using returns⟩
    refine (Speaks.bindName _ function).seq ?_
    split
    · refine (Speaks.emitAll _).seq (Speaks.pure (Node.within_made rfl (hn.adopt he).self.2 ?_))
      exact List.forall_mem_cons.mpr ⟨hname, List.forall_mem_singleton.mpr hparam⟩
    · refine Speaks.pure (hn.rebuild rfl (hn.adopt he).self.2 ?_)
      rw [functionOf_children]
      simp only [List.forall_mem_cons, List.forall_mem_append]
      exact ⟨hname, hmiddle, hparam, hbody, within_markers config name' body returns⟩
  · exact Speaks.pure (hn.fail _)

end Function

end Rule

namespace Engine

open Pass

/-- **A vocabulary is not left.** -/
theorem speaks_visit {e : Engine} (hrules : e.rules = []) (n : Node) (expected : Option Ty)
    (hn : n.Within V) (he : ∀ ty ∈ expected, ty.Within V) :
    (e.visit n expected).Speaks V (Node.Within V) := by
  refine e.visit_induction hrules (Q := fun m ex p => m.Within V →
    (∀ ty ∈ ex, ty.Within V) → p.Speaks V (Node.Within V)) ?_ ?_ n expected hn he
  · intro n _ _ hn _
    exact (Speaks.emit _).bind fun _ _ _ => Speaks.pure hn
  · intro n t r _ h inside expected hn he
    have below : ∀ m : Node, m.Inside n → ∀ ex : Option Ty, (∀ ty ∈ ex, ty.Within V) →
        (e.visit m ex).Speaks V (Node.Within V) :=
      fun m hm ex => inside m hm ex (hn.inside hm)
    refine (Speaks.emit _).bind fun _ _ _ => ?_
    cases h with
    | source => exact Rule.speaks_source hn he below
    | block => exact Rule.speaks_block hn he below
    | title | eventDecl => exact Speaks.pure (hn.adopt he)
    | importList => exact Rule.speaks_importList hn he below
    | importDecl => exact Rule.speaks_importDecl hn he
    | variableDecl => exact Rule.speaks_variableDecl hn he below
    | vPair | pair => exact Rule.speaks_pair hn
    | functionDecl => exact Rule.speaks_functionDecl hn he below e.config
    | functionName => exact Rule.speaks_functionName hn he
    | fdParam => exact Rule.speaks_fdParam hn he below
    | fdPair => exact Rule.speaks_fdPair hn e.config
    | fdBody => exact Rule.speaks_fdBody hn below
    | assign => exact Rule.speaks_assign hn below
    | returnStatement => exact Rule.speaks_returnStatement hn he below
    | recordStatement => exact Rule.speaks_recordStatement hn he below
    | completeStatement => exact Speaks.pure (hn.withType (by simpa using Ty.within_bool))
    | map1 | map2 => exact Rule.speaks_mapping hn below _
    | raw => exact Rule.speaks_raw hn
    | intExpr => exact Speaks.pure (hn.withType (by simpa using Ty.within_int256))
    | structDefine => exact Rule.speaks_structDefine hn he below
    | enumType => exact Rule.speaks_enumType hn he below e.config
    | wordDefine | assumeDecls => exact Rule.speaks_finishing hn he below
    | assumeDecl => exact Rule.speaks_assumeDecl hn he below

/-- A unit is checked under the prelude alone, with nothing in the ledger. -/
theorem speaks_checkUnit {config : Config} {tree : Node}
    (prelude : ∀ b ∈ config.prelude, b.2.Within V) (words : tree.Within V)
    (admitted : ∀ event ∈ (checkUnit { config } tree).log, V.admits event) :
    (checkUnit { config } tree).value.Within V ∧ (checkUnit { config } tree).env.Within V := by
  have start : (Env.ofConfig config).Within V :=
    ⟨prelude, List.forall_mem_nil _, List.forall_mem_nil _⟩
  have void : ∀ ty ∈ some Ty.void, ty.Within V := by simpa using Ty.within_void
  exact speaks_visit (e := { config }) rfl tree (some .void) words void _ start admitted

end Engine

end ContractTyping
