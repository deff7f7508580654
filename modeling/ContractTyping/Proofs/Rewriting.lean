import ContractTyping.Proofs.Visit

/-!
What a visit may leave of a tree. `Rewrites w n out` says how the node that comes back may differ
from the node that was visited: children stay in order and what is added stands behind them,
functions apart, whose raw body is taken to pieces. The flag `w` says whether the node stands inside
the value of an assumption, where leaves have the widths of integers fixed. Main statement:
`Rewrites.normalizeValue`, fixing widths afterwards leaves a rewriting a rewriting.
-/

namespace ContractTyping

namespace Node

theorem normalizeValue_context (m : Node) : m.normalizeValue.context = m.context := by
  obtain ⟨tag, children, payload⟩ := m
  cases children <;> rfl

theorem normalizeValue_span (m : Node) : m.normalizeValue.span = m.span := by
  obtain ⟨tag, children, payload⟩ := m
  cases children <;> rfl

theorem normalizeValue_payload (m : Node) :
    m.normalizeValue.payload = if m.children = [] then m.payload.map fixedWidth else m.payload := by
  obtain ⟨tag, children, payload⟩ := m
  cases children <;> rfl

theorem fixedWidth_idem (s : String) : fixedWidth (fixedWidth s) = fixedWidth s := by
  unfold fixedWidth
  by_cases int : s = "int"
  · simp [int]
  · by_cases uint : s = "uint"
    · simp [uint]
    · simp [int, uint]

theorem normalizeValue_idem (m : Node) : m.normalizeValue.normalizeValue = m.normalizeValue := by
  induction m using induction_on_children with
  | step m ih =>
    obtain ⟨tag, children, payload⟩ := m
    cases children with
    | nil => simp [normalizeValue, Function.comp_def, fixedWidth_idem]
    | cons c cs =>
      simp only [normalizeValue, normalizeValues_eq_map, List.map_map]
      rw [ih c List.mem_cons_self]
      have others : cs.map (normalizeValue ∘ normalizeValue) = cs.map normalizeValue :=
        List.map_congr_left fun d hd => ih d (List.mem_cons_of_mem _ hd)
      rw [others]

theorem withType_ty (n : Node) : n.withType n.ty = n := by
  cases n
  rfl

/-! ## What may come back -/

/-- A function declaration with a name and a raw body. -/
def IsFunction (n : Node) : Prop := n.tag = .functionDecl ∧ 2 ≤ n.children.length

/-- A list of imports that is a bare string. -/
def IsBareImport (n : Node) : Prop :=
  n.tag = .importList ∧ n.children = [] ∧ n.payload.isSome = true

/-- The node as it reads inside the value of an assumption, or outside of one. -/
def readAs (w : Bool) (n : Node) : Node := if w then n.normalizeValue else n

/-- The children, each with whether it stands inside the value of an assumption: the second child
of an assumption is its value. -/
def readings (w : Bool) (n : Node) : List (Bool × Node) :=
  match n.tag, n.children with
  | .assumeDecl, name :: value :: rest =>
    (w, name) :: (true, value) :: rest.map fun c => (w, c)
  | _, children => children.map fun c => (w, c)

/-- Kind, context, span and payload stay, but for the width of a leaf. -/
structure KeepsHead (w : Bool) (n out : Node) : Prop where
  tag : out.tag = n.tag
  context : out.context = n.context
  span : out.span = n.span
  payload : out.payload =
    if w = true ∧ out.children = [] then n.payload.map fixedWidth else n.payload

/-- What may stand behind the children of a node that comes back. -/
def Added : Tag → List Node → Prop
  | .source, ms => ∃ decls, ms = [decls] ∧ decls.tag = .typeDecls
  | .variableDecl, ms => ∀ m ∈ ms, m.tag = .importPair
  | .fdPair, ms => ms.length ≤ 1 ∧ ∀ m ∈ ms, m.tag = .memoryType
  | .recordStatement, ms => ms.length ≤ 1 ∧ ∀ m ∈ ms, m.tag = .text ∧ m.context = some "name"
  | .enumType, ms => ∃ name, ms = [name] ∧ name.tag = .text ∧ name.context = some "name"
  | _, ms => ms = []

/-- What the parameter slots of a raw body hold. -/
def slotParams (raw : Node) : List Node :=
  (raw.children.filter fun c => c.tag = .functionParam).filterMap fun c => c.children.head?

/-- What stands in a raw body beside the parameter slots. -/
def bodyStatements (raw : Node) : List Node :=
  raw.children.filter fun c => c.tag ≠ .functionParam

/-- The last statement of a raw body is an event. -/
def EndsInEvent (raw : Node) : Prop :=
  ∃ last, raw.bodyStatements.getLast? = some last ∧ last.tag = .eventStatement

/-- A block made of a raw body: it has a kind and a context of its own, and the span. -/
structure BlockOf (raw : Node) (tag : Tag) (context : String) (block : Node) : Prop where
  tag : block.tag = tag
  context : block.context = some context
  span : block.span = raw.span
  payload : block.payload = none

end Node

open Node

mutual

/-- What a visit may make of a node. -/
inductive Rewrites : Bool → Node → Node → Prop
  | node {w : Bool} {n out : Node} {kept added : List Node} (ordinary : ¬ n.IsFunction)
      (filled : ¬ n.IsBareImport) (head : n.KeepsHead w out)
      (children : out.children = kept ++ added) (each : Follows (n.readings w) kept)
      (synthesized : Added n.tag added) : Rewrites w n out
  | bareImport {w : Bool} {n out : Node} (bare : n.IsBareImport) (tag : out.tag = n.tag)
      (context : out.context = n.context) (span : out.span = n.span) (payload : out.payload = none)
      (children : out.children = [{ tag := .noImport, payload := some "", span := n.span }]) :
      Rewrites w n out
  /-- Parameters, body and markers stand in place of the raw body. -/
  | function {w : Bool} {n out first raw name param body : Node}
      {middle guards visited markers : List Node} (tag : n.tag = .functionDecl)
      (layout : n.children = first :: (middle ++ [raw])) (noEvent : ¬ raw.EndsInEvent)
      (head : n.SameHead out)
      (children : out.children = name :: (middle.map (readAs w) ++ param :: body :: markers))
      (named : Rewrites w first name) (paramBlock : raw.BlockOf .fdParam "param" param)
      (params : RewritesEach w raw.slotParams param.children)
      (bodyBlock : raw.BlockOf .fdBody "body" body) (statements : body.children = guards ++ visited)
      (guarded : ∀ g ∈ guards, g.tag = .require)
      (each : RewritesEach w raw.bodyStatements visited)
      (marked : (markers.map Node.tag).Sublist [.returnType, .notConstructor, .viewType]) :
      Rewrites w n out
  /-- A function that ends in an event keeps its name and its parameters. -/
  | event {w : Bool} {n out first raw name param : Node} {middle : List Node}
      (tag : n.tag = .functionDecl) (layout : n.children = first :: (middle ++ [raw]))
      (event : raw.EndsInEvent) (outTag : out.tag = .eventDecl) (context : out.context = none)
      (span : out.span = n.span) (payload : out.payload = none)
      (children : out.children = [name, param]) (named : Rewrites w first name)
      (paramBlock : raw.BlockOf .fdParam "param" param)
      (params : RewritesEach w raw.slotParams param.children) : Rewrites w n out

/-- One node comes back for each child: it was visited, or it is the child as it was up to its
type. -/
inductive Follows : List (Bool × Node) → List Node → Prop
  | nil : Follows [] []
  | visited {w : Bool} {c o : Node} {cs : List (Bool × Node)} {os : List Node}
      (one : Rewrites w c o) (others : Follows cs os) : Follows ((w, c) :: cs) (o :: os)
  | kept {w : Bool} {c : Node} {cs : List (Bool × Node)} {os : List Node} (ty : Option Ty)
      (others : Follows cs os) : Follows ((w, c) :: cs) ((c.withType ty).readAs w :: os)

/-- Every node of a list was visited. -/
inductive RewritesEach : Bool → List Node → List Node → Prop
  | nil {w : Bool} : RewritesEach w [] []
  | cons {w : Bool} {c o : Node} {cs os : List Node} (one : Rewrites w c o)
      (others : RewritesEach w cs os) : RewritesEach w (c :: cs) (o :: os)

end

/-! ## Fixing widths afterwards -/

namespace Node

theorem normalizeValue_readAs (w : Bool) (n : Node) :
    (n.readAs w).normalizeValue = n.readAs true := by
  cases w with
  | false => rfl
  | true => exact n.normalizeValue_idem

theorem map_normalizeValue_readAs (w : Bool) (ns : List Node) :
    (ns.map (readAs w)).map normalizeValue = ns.map (readAs true) := by
  rw [List.map_map]
  exact List.map_congr_left fun n _ => normalizeValue_readAs w n

/-- Inside a value everything is. -/
theorem readings_true (w : Bool) (n : Node) :
    n.readings true = (n.readings w).map fun c => (true, c.2) := by
  unfold readings
  split <;> simp [Function.comp_def]

theorem KeepsHead.normalizeValue {w : Bool} {n out : Node} (h : n.KeepsHead w out) :
    n.KeepsHead true out.normalizeValue := by
  refine ⟨?_, ?_, ?_, ?_⟩
  · rw [normalizeValue_tag, h.tag]
  · rw [normalizeValue_context, h.context]
  · rw [normalizeValue_span, h.span]
  · rw [normalizeValue_payload, h.payload]
    by_cases leaf : out.children = []
    · cases w <;> simp [leaf, normalizeValue_children, Function.comp_def, fixedWidth_idem]
    · simp [leaf, normalizeValue_children]

theorem SameHead.normalizeValue {n out : Node} (h : n.SameHead out) (hc : out.children ≠ []) :
    n.SameHead out.normalizeValue := by
  refine ⟨?_, ?_, ?_, ?_⟩
  · rw [normalizeValue_tag, h.tag]
  · rw [normalizeValue_payload, if_neg hc, h.payload]
  · rw [normalizeValue_context, h.context]
  · rw [normalizeValue_span, h.span]

theorem BlockOf.normalizeValue {raw block : Node} {tag : Tag} {context : String}
    (h : raw.BlockOf tag context block) : raw.BlockOf tag context block.normalizeValue := by
  refine ⟨?_, ?_, ?_, ?_⟩
  · rw [normalizeValue_tag, h.tag]
  · rw [normalizeValue_context, h.context]
  · rw [normalizeValue_span, h.span]
  · rw [normalizeValue_payload, h.payload]
    simp

theorem map_normalizeValue_tag (ms : List Node) :
    (ms.map normalizeValue).map tag = ms.map tag := by
  simp [Function.comp_def, normalizeValue_tag]

theorem Added.normalizeValue {t : Tag} {ms : List Node} (h : Added t ms) :
    Added t (ms.map Node.normalizeValue) := by
  unfold Added at h ⊢
  split at h
  · obtain ⟨decls, rfl, tag⟩ := h
    exact ⟨decls.normalizeValue, rfl, decls.normalizeValue_tag.trans tag⟩
  · simpa [normalizeValue_tag] using h
  · simpa [normalizeValue_tag] using h
  · simpa [normalizeValue_tag, normalizeValue_context] using h
  · obtain ⟨name, rfl, tag, context⟩ := h
    exact ⟨name.normalizeValue, rfl, name.normalizeValue_tag.trans tag,
      name.normalizeValue_context.trans context⟩
  · rw [h]
    rfl

end Node

mutual

theorem Rewrites.normalizeValue {w : Bool} {n out : Node} :
    Rewrites w n out → Rewrites true n out.normalizeValue
  | .node ordinary filled head children each synthesized => by
    have parts := congrArg (List.map Node.normalizeValue) children
    rw [← normalizeValue_children, List.map_append] at parts
    have followed := each.normalizeValue
    rw [← readings_true w] at followed
    exact .node ordinary filled head.normalizeValue parts followed synthesized.normalizeValue
  | .bareImport bare tag context span payload children => by
    refine .bareImport bare ?_ ?_ ?_ ?_ ?_
    · rw [normalizeValue_tag, tag]
    · rw [normalizeValue_context, context]
    · rw [normalizeValue_span, span]
    · simp [normalizeValue_payload, payload]
    · rw [normalizeValue_children, children]
      rfl
  | .function tag layout noEvent head children named paramBlock params bodyBlock statements guarded
      each marked => by
    -- The declaration is no leaf, so its own payload is left alone.
    have filled : out.children ≠ [] := by simp [children]
    have parts := congrArg (List.map Node.normalizeValue) children
    have inner := congrArg (List.map Node.normalizeValue) statements
    have visited := params.normalizeValue
    rw [← normalizeValue_children, List.map_cons, List.map_append, List.map_cons, List.map_cons,
      map_normalizeValue_readAs] at parts
    rw [← normalizeValue_children, List.map_append] at inner
    rw [← normalizeValue_children] at visited
    rw [← map_normalizeValue_tag] at marked
    refine .function tag layout noEvent (head.normalizeValue filled) parts named.normalizeValue
      paramBlock.normalizeValue visited bodyBlock.normalizeValue inner ?_ each.normalizeValue marked
    exact List.forall_mem_map.mpr fun g hg => (normalizeValue_tag g).trans (guarded g hg)
  | .event tag layout event outTag context span payload children named paramBlock params => by
    have parts := congrArg (List.map Node.normalizeValue) children
    have visited := params.normalizeValue
    rw [← normalizeValue_children] at parts visited
    refine .event tag layout event ?_ ?_ ?_ ?_ parts named.normalizeValue paramBlock.normalizeValue
      visited
    · rw [normalizeValue_tag, outTag]
    · rw [normalizeValue_context, context]
    · rw [normalizeValue_span, span]
    · simp [normalizeValue_payload, payload]

theorem Follows.normalizeValue {cs : List (Bool × Node)} {os : List Node} :
    Follows cs os → Follows (cs.map fun c => (true, c.2)) (os.map Node.normalizeValue)
  | .nil => .nil
  | .visited one others => .visited one.normalizeValue others.normalizeValue
  | .kept ty others => by
    rw [List.map_cons, List.map_cons, normalizeValue_readAs]
    exact .kept ty others.normalizeValue

theorem RewritesEach.normalizeValue {w : Bool} {cs os : List Node} :
    RewritesEach w cs os → RewritesEach true cs (os.map Node.normalizeValue)
  | .nil => .nil
  | .cons one others => .cons one.normalizeValue others.normalizeValue

end

/-! ## Lists of children -/

theorem Follows.same {c : Node} {cs : List (Bool × Node)} {os : List Node} (h : Follows cs os) :
    Follows ((false, c) :: cs) (c :: os) := by
  have kept := Follows.kept (w := false) (c := c) c.ty h
  rwa [withType_ty] at kept

theorem Follows.refl (ns : List Node) : Follows (ns.map fun c => (false, c)) ns := by
  induction ns with
  | nil => exact .nil
  | cons n ns ih => exact ih.same

theorem Follows.append {bs cs : List (Bool × Node)} {ms ns : List Node} (h : Follows bs ms)
    (h' : Follows cs ns) : Follows (bs ++ cs) (ms ++ ns) := by
  induction bs generalizing ms with
  | nil =>
    cases h
    exact h'
  | cons b bs ih =>
    cases h with
    | visited one others => exact .visited one (ih others)
    | kept ty others => exact .kept ty (ih others)

theorem RewritesEach.follows {w : Bool} {cs os : List Node} (h : RewritesEach w cs os) :
    Follows (cs.map fun c => (w, c)) os := by
  induction cs generalizing os with
  | nil =>
    cases h
    exact .nil
  | cons c cs ih =>
    cases h with
    | cons one others => exact .visited one (ih others)

/-- Of the two kinds that change, neither is nor becomes an event statement. -/
theorem Rewrites.isEvent_iff {w : Bool} {n out : Node} (h : Rewrites w n out) :
    out.tag = .eventStatement ↔ n.tag = .eventStatement := by
  cases h with
  | node _ _ head => rw [head.tag]
  | bareImport _ tag => rw [tag]
  | function _ _ _ head => rw [head.tag]
  | event tag _ _ outTag => simp [tag, outTag]

theorem RewritesEach.endsInEvent_iff {w : Bool} {cs os : List Node} (h : RewritesEach w cs os) :
    (∃ last, os.getLast? = some last ∧ last.tag = .eventStatement) ↔
      ∃ last, cs.getLast? = some last ∧ last.tag = .eventStatement := by
  induction cs generalizing os with
  | nil =>
    cases h
    simp
  | cons c cs ih =>
    cases h with
    | cons one others =>
      cases others with
      | nil => simpa using one.isEvent_iff
      | cons next rest => simpa [List.getLast?_cons_cons] using ih (.cons next rest)

end ContractTyping
