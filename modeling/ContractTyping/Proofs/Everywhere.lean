import ContractTyping.Proofs.Visit

/-!
Properties of single nodes. What holds of each node that a rule hands back, of the nodes that the
pass makes and of those that it leaves alone holds everywhere in the tree, and in the ledger.
Main statement: `Engine.everywhere_visit`.
-/

namespace ContractTyping

/-- The kinds of nodes that the pass makes itself, blocks of functions apart. -/
def Tag.isMade : Tag → Bool
  | noImport | importPair | enumElement | enumDefine | require | infixExpr | nameExpr | text
  | typeDecls | returnType | notConstructor | viewType | memoryType => true
  | _ => false

/-- The child that gets its type from the scope: it stands second in a pair and last in a
parameter. -/
def Node.nameChild? (n : Node) : Option Node :=
  match n.tag with
  | .pair | .vPair => n.children[1]?
  | .fdPair => n.children.getLast?
  | _ => none

theorem Node.mem_of_nameChild? {n name : Node} (h : n.nameChild? = some name) :
    name ∈ n.children := by
  unfold nameChild? at h
  split at h
  · exact List.mem_of_getElem? h
  · exact List.mem_of_getElem? h
  · exact List.mem_of_getLast? h
  · cases h

/-- A property `P` of nodes that visits establish, where `H` holds of the trees that are visited. -/
structure Engine.Establishes (e : Engine) (H P : Node → Prop) : Prop where
  inside : ∀ {n m : Node}, H n → m.Inside n → H m
  untouched : ∀ {n : Node}, H n → P n
  root : ∀ {n : Node} (expected : Option Ty), H n → (e.visit n expected).Yields P
  named : ∀ {n name : Node} (ty : Ty), H n → n.nameChild? = some name → P (name.withType (some ty))
  normalized : ∀ {m : Node}, P m → P m.normalizeValue
  made : ∀ {m : Node}, m.tag.isMade = true → m.error = none → P m
  paramBlock : ∀ raw, (Rule.paramBlock e.visit raw).Yields P
  bodyBlock : ∀ raw guards, (∀ g ∈ guards, g.tag = .require) →
    (Rule.bodyBlock e.visit raw guards).Yields P

/-- Nodes that wait in the ledger have a property. -/
structure Env.Stores (D : Node → Prop) (env : Env) : Prop where
  decls : ∀ d ∈ env.ledger.decls, D d
  unguarded : ∀ p ∈ env.ledger.unguarded, D p

theorem Pass.Returns.bind {p : Pass α} {f : α → Pass β} {a : α} {b : β} (h : p.Returns a)
    (hf : ∀ env, (f a env).value = b) : (p >>= f).Returns b := by
  obtain ⟨env, rfl⟩ := h
  exact ⟨env, hf _⟩

namespace Rule

open Pass

variable {e : Engine} {H P D : Node → Prop} (law : e.Establishes H P) {n : Node}
  {expected : Option Ty}

/-- Every node below has the property. -/
def Below (P : Node → Prop) (out : Node) : Prop := ∀ c ∈ out.children, c.All P

/-- The node itself is left to what is known of every value that comes back. -/
theorem Below.keeps_all {p : Pass Node} (h : p.Keeps (Env.Stores D) (Below P)) (root : p.Yields P) :
    p.Keeps (Env.Stores D) (Node.All P) := by
  intro env stores
  obtain ⟨below, stores⟩ := h env stores
  exact ⟨Node.all_iff.mpr ⟨root _ (p.returns_self env), below⟩, stores⟩

section Nodes

include law

theorem all_untouched (hn : H n) : n.All P := by
  induction n using Node.induction_on_children with
  | step n ih =>
    refine Node.all_iff.mpr ⟨law.untouched hn, fun c hc => ih c hc ?_⟩
    exact law.inside hn (Node.inside_of_child hc)

theorem all_child (hn : H n) {c : Node} (hc : c ∈ n.children) : c.All P :=
  all_untouched law (law.inside hn (Node.inside_of_child hc))

theorem all_made {m : Node} (kind : m.tag.isMade = true) (error : m.error = none)
    (below : Below P m) : m.All P :=
  Node.all_iff.mpr ⟨law.made kind error, below⟩

theorem all_leaf {m : Node} (kind : m.tag.isMade = true) (error : m.error = none)
    (hc : m.children = []) : m.All P :=
  all_made law kind error (by simp [Below, hc])

/-- The type of a name comes from outside; what stands below it is left alone. -/
theorem all_named (hn : H n) {name : Node} (h : n.nameChild? = some name) (ty : Ty) :
    (name.withType (some ty)).All P := by
  have child : H name := law.inside hn (Node.inside_of_child (Node.mem_of_nameChild? h))
  exact Node.all_iff.mpr ⟨law.named ty hn h, fun c hm => all_child law child hm⟩

end Nodes

/-! ## Rules that visit nothing -/

section Unvisited

include law

variable {v : Visitor} (hn : H n)

include hn

theorem below_same {out : Node} (hc : out.children = n.children) : Below P out :=
  fun _ hm => all_child law hn (hc ▸ hm)

theorem below_unvisited {out : Node} (hc : out.children = n.children) :
    Keeps (Env.Stores D) (Below P) (pure out) :=
  Keeps.pure (below_same law hn hc)

omit law hn in
theorem below_resolving {m : Node} (hm : Below P m) {name : String} {found : Ty → Pass Node}
    (h : ∀ ty, (found ty).Keeps (Env.Stores D) (Below P)) :
    (resolving m name found).Keeps (Env.Stores D) (Below P) := by
  refine (Keeps.lookup? name).bind fun ty _ _ => ?_
  cases ty with
  | some ty => exact h ty
  | none => exact (Keeps.emit _).seq (Keeps.pure hm)

theorem below_pair (ht : n.tag = .pair ∨ n.tag = .vPair) :
    (pair v n expected).Keeps (Env.Stores D) (Below P) := by
  unfold pair
  split
  · rename_i first name rest hc
    have child : n.nameChild? = some name := by
      rcases ht with h | h <;> simp [Node.nameChild?, h, hc]
    refine below_resolving (below_same law hn rfl) fun ty => Keeps.pure ?_
    have first := all_child law hn (c := first) (by simp [hc])
    have typed := all_named law hn child ty
    refine List.forall_mem_cons.mpr ⟨first, List.forall_mem_cons.mpr ⟨typed, fun c hm => ?_⟩⟩
    exact all_child law hn (by simp [hc, hm])
  · exact below_unvisited law hn rfl

theorem below_raw : (raw v n expected).Keeps (Env.Stores D) (Below P) := by
  refine (Keeps.lookup? n.text).bind fun ty _ _ => ?_
  cases ty with
  | some ty => exact below_unvisited law hn rfl
  | none => exact (Keeps.emit _).seq (below_unvisited law hn rfl)

theorem below_functionName : (functionName v n expected).Keeps (Env.Stores D) (Below P) := by
  unfold functionName
  split
  · refine Keeps.seq (Keeps.updateLedger fun _ stores => ?_) (below_unvisited law hn rfl)
    exact ⟨stores.decls, stores.unguarded⟩
  · exact below_unvisited law hn rfl

theorem below_importDecl : (importDecl v n expected).Keeps (Env.Stores D) (Below P) := by
  unfold importDecl
  split
  · split
    · refine (Keeps.emit _).seq (Keeps.seq (Keeps.updateLedger fun _ stores => ?_) ?_)
      · exact ⟨stores.decls, stores.unguarded⟩
      · exact below_unvisited law hn rfl
    · exact below_unvisited law hn rfl
  · exact below_unvisited law hn rfl

omit hn in
theorem all_memoryMarker (ty : Ty) : ∀ c ∈ memoryMarker ty, c.All P := by
  unfold memoryMarker
  split
  · exact List.forall_mem_singleton.mpr (all_leaf law rfl rfl rfl)
  · simp

omit law hn in
theorem stores_awaitGuard {p : Node} (hp : D p) (config : Config) (ty : Ty) :
    (awaitGuard config ty p).Keeps (Env.Stores D) fun _ => True := by
  unfold awaitGuard
  split
  · refine Keeps.updateLedger fun env stores => ⟨stores.decls, ?_⟩
    exact List.forall_mem_append.mpr ⟨stores.unguarded, by simpa using hp⟩
  · exact Keeps.pure trivial

theorem below_fdPair (hD : ∀ m : Node, m.All P → D m) (ht : n.tag = .fdPair) (config : Config) :
    (fdPair config v n expected).Keeps (Env.Stores D) (Below P) := by
  unfold fdPair
  split
  · exact below_unvisited law hn rfl
  · rename_i name hl
    have child : n.nameChild? = some name := by simp [Node.nameChild?, ht, hl]
    refine below_resolving (below_same law hn rfl) fun ty => ?_
    have typed := all_named law hn child ty
    refine (stores_awaitGuard (hD _ typed) config ty).seq (Keeps.pure ?_)
    refine List.forall_mem_append.mpr ⟨fun c hm => all_child law hn (List.dropLast_subset _ hm), ?_⟩
    exact List.forall_mem_cons.mpr ⟨typed, all_memoryMarker law ty⟩

end Unvisited

/-! ## Rules that visit children -/

section Children

variable {v : Visitor}

theorem stores_bindName (name : String) (ty : Ty) :
    (Pass.bindName name ty).Keeps (Env.Stores D) fun _ => True :=
  Keeps.bindName fun _ stores => ⟨stores.decls, stores.unguarded⟩

theorem stores_addDecl {d : Node} (hd : D d) :
    (Pass.updateLedger (·.addDecl d)).Keeps (Env.Stores D) fun _ => True :=
  Keeps.updateLedger fun _ stores =>
    ⟨List.forall_mem_append.mpr ⟨stores.decls, by simpa using hd⟩, stores.unguarded⟩

variable (below : ∀ c ∈ n.children, ∀ ex, (v c ex).Keeps (Env.Stores D) (Node.All P))

include below

theorem all_visits {ms : List Node} (sub : ms ⊆ n.children) (ex : Option Ty) :
    (visitAll v ms ex).Keeps (Env.Stores D) fun os => ∀ o ∈ os, o.All P :=
  Keeps.visitAll fun m hm => below m (sub hm) ex

/-- Visiting all children and returning a node with them. -/
theorem below_each (ex : Option Ty) (rebuild : List Node → Node)
    (h : ∀ os, (rebuild os).children = os) :
    Keeps (Env.Stores D) (Below P)
      (do let os ← visitAll v n.children ex; return rebuild os) := by
  refine (all_visits below (List.Subset.refl _) ex).bind fun os _ hos => Keeps.pure ?_
  unfold Below
  rwa [h os]

theorem all_unitChildren :
    (unitChildren v n.children).Keeps (Env.Stores D) fun os => ∀ o ∈ os, o.All P := by
  unfold unitChildren
  split
  · exact Keeps.pure (by simp)
  · rename_i last hl
    split
    · refine (below last (List.mem_of_getLast? hl) _).bind fun o _ ho => ?_
      refine (all_visits below (List.dropLast_subset _) _).bind fun os _ hos => Keeps.pure ?_
      exact List.forall_mem_append.mpr ⟨hos, by simpa using ho⟩
    · exact all_visits below (List.Subset.refl _) _

include law

theorem below_importList : (importList v n expected).Keeps (Env.Stores D) (Below P) := by
  unfold importList
  split
  · exact Keeps.pure (List.forall_mem_singleton.mpr (all_leaf law rfl rfl rfl))
  · exact below_each below expected _ fun _ => rfl

theorem below_variableDecl : (variableDecl v n expected).Keeps (Env.Stores D) (Below P) := by
  refine (all_visits below (List.Subset.refl _) none).bind fun os _ hos => ?_
  refine (Keeps.reads _).bind fun imports _ _ => Keeps.pure ?_
  refine List.forall_mem_append.mpr ⟨hos, List.forall_mem_map.mpr fun i _ => ?_⟩
  refine all_made law rfl rfl ?_
  simp only [Below, Import.toPair, List.forall_mem_cons]
  exact ⟨all_leaf law rfl rfl rfl, all_leaf law rfl rfl rfl, all_leaf law rfl rfl rfl, by simp⟩

theorem below_enumType (hD : ∀ m : Node, m.All P → D m) (config : Config) :
    (enumType config v n expected).Keeps (Env.Stores D) (Below P) := by
  refine (all_visits below (List.Subset.refl _) expected).bind fun os _ hos => ?_
  refine (Keeps.reads _).bind fun generated _ _ => ?_
  have name : ((Node.leaf .text generated).withContext "name").All P := all_leaf law rfl rfl rfl
  have elements : Node.All P { tag := .enumElement, children := os, context := some "data" } :=
    all_made law rfl rfl hos
  refine (Keeps.emit _).seq (Keeps.seq (stores_addDecl (hD _ (all_made law rfl rfl ?_))) ?_)
  · exact List.forall_mem_cons.mpr ⟨elements, by simpa using name⟩
  · exact Keeps.pure (List.forall_mem_append.mpr ⟨hos, by simpa using name⟩)

variable (hn : H n)

include hn

theorem below_assign : (assign v n expected).Keeps (Env.Stores D) (Below P) := by
  unfold assign
  split
  · rename_i target value rest hc
    refine (below target (by simp [hc]) none).bind fun t _ ht => ?_
    refine (below value (by simp [hc]) t.ty).bind fun o _ ho => Keeps.pure ?_
    refine List.forall_mem_cons.mpr ⟨ht, List.forall_mem_cons.mpr ⟨ho, fun c hm => ?_⟩⟩
    exact all_child law hn (by simp [hc, hm])
  · exact below_unvisited law hn rfl

theorem below_returnStatement : (returnStatement v n expected).Keeps (Env.Stores D) (Below P) := by
  unfold returnStatement
  split
  · rename_i operand rest hc
    refine (below operand (by simp [hc]) expected).bind fun o _ ho => ?_
    have children : Below P { n with children := o :: rest } :=
      List.forall_mem_cons.mpr ⟨ho, fun c hm => all_child law hn (by simp [hc, hm])⟩
    dsimp only
    split
    · exact Keeps.pure children
    · exact below_resolving children fun ty => Keeps.pure children
    · exact Keeps.pure children
  · exact below_unvisited law hn rfl

theorem below_recordStatement : (recordStatement v n expected).Keeps (Env.Stores D) (Below P) := by
  unfold recordStatement
  split
  · rename_i target event rest hc
    refine (below target (by simp [hc]) expected).bind fun t _ ht => ?_
    refine (Keeps.reads _).bind fun display _ _ => Keeps.pure ?_
    refine List.forall_mem_append.mpr ⟨List.forall_mem_cons.mpr ⟨ht, fun c hm => ?_⟩, ?_⟩
    · exact all_child law hn (hc ▸ List.mem_cons_of_mem _ hm)
    · exact List.forall_mem_map.mpr fun text _ => all_leaf law rfl rfl rfl
  · exact below_unvisited law hn rfl

theorem below_mapping (arity : Nat) :
    (mapping arity v n expected).Keeps (Env.Stores D) (Below P) := by
  unfold mapping
  split
  · exact below_unvisited law hn rfl
  · rename_i operand rest hd
    have child : operand ∈ n.children := List.mem_of_mem_drop (hd ▸ List.mem_cons_self)
    refine (below operand child none).bind fun o _ ho => ?_
    have tail : ∀ c ∈ o :: rest, c.All P := List.forall_mem_cons.mpr ⟨ho, fun c hm =>
      all_child law hn (List.mem_of_mem_drop (hd ▸ List.mem_cons_of_mem _ hm))⟩
    split
    · refine (all_visits below (List.take_subset _ _) none).bind fun indices _ hi => ?_
      exact Keeps.pure (List.forall_mem_append.mpr ⟨hi, tail⟩)
    · refine Keeps.pure (List.forall_mem_append.mpr ⟨fun c hm => ?_, tail⟩)
      exact all_child law hn (List.mem_of_mem_take hm)

/-- The copy in the queue is the node that comes back. -/
theorem below_structDefine (hD : ∀ m : Node, m.All P → D m)
    (root : (structDefine v n expected).Yields P) :
    (structDefine v n expected).Keeps (Env.Stores D) (Below P) := by
  unfold structDefine at root ⊢
  split
  · rename_i name fields hc
    simp only [hc] at root
    have sub : fields ⊆ n.children := hc ▸ List.subset_cons_self name fields
    refine (all_visits below sub expected).bind fun os returned hos => ?_
    have children : ∀ c ∈ name :: os, c.All P :=
      List.forall_mem_cons.mpr ⟨all_child law hn (by simp [hc]), hos⟩
    have decl : ({ n with children := name :: os }.adopt expected).All P :=
      Node.all_iff.mpr ⟨root _ (returned.bind fun _ => rfl), children⟩
    refine (stores_bindName _ _).seq ((Keeps.emit _).seq ?_)
    exact (stores_addDecl (hD _ decl)).seq (Keeps.pure children)
  · exact below_unvisited law hn rfl

theorem below_assumeDecl : (assumeDecl v n expected).Keeps (Env.Stores D) (Below P) := by
  unfold assumeDecl
  split
  · rename_i name value rest hc
    refine (below name (by simp [hc]) expected).bind fun x _ hx => ?_
    refine (below value (by simp [hc]) expected).bind fun o _ ho => ?_
    refine (all_visits below (fun c hm => by simp [hc, hm]) expected).bind fun os _ hos => ?_
    refine (Keeps.emit _).seq ((stores_bindName _ _).seq (Keeps.pure ?_))
    exact List.forall_mem_cons.mpr ⟨hx, List.forall_mem_cons.mpr
      ⟨ho.normalizeValue (p := P) (fun _ => law.normalized), hos⟩⟩
  · exact below_unvisited law hn rfl

end Children

/-! ## Functions and units -/

section Functions

variable {v : Visitor}
  (below : ∀ m : Node, m.Inside n → ∀ ex, (v m ex).Keeps (Env.Stores D) (Node.All P))

section Laws

include law

/-- Parameters that wait for a guard come from earlier visits, so the guards are sound when the
ledger is. -/
theorem all_takeGuards (trusted : ∀ m, D m → m.All P) (config : Config) :
    (takeGuards config).Keeps (Env.Stores D) fun gs => ∀ g ∈ gs, g.tag = .require ∧ g.All P := by
  intro env stores
  refine ⟨List.forall_mem_map.mpr fun p hp => ⟨rfl, ?_⟩, stores.decls, List.forall_mem_nil _⟩
  refine all_made law rfl rfl (List.forall_mem_singleton.mpr (all_made law rfl rfl ?_))
  simp only [Below, List.forall_mem_cons]
  exact ⟨trusted p (stores.unguarded p hp), all_leaf law rfl rfl rfl, all_leaf law rfl rfl rfl,
    by simp⟩

theorem all_markers (config : Config) (name body : Node) (returns : Ty) :
    ∀ c ∈ markers config name body returns, c.All P := by
  have single : ∀ {m : Node}, m.tag.isMade = true → m.error = none → m.children = [] →
      ∀ c ∈ [m], c.All P :=
    fun kind error hc => List.forall_mem_singleton.mpr (all_leaf law kind error hc)
  refine List.forall_mem_append.mpr ⟨?_, ?_⟩
  · split
    · simp
    · exact single rfl rfl rfl
  · split
    · simp
    · refine List.forall_mem_cons.mpr ⟨all_leaf law rfl rfl rfl, ?_⟩
      split
      · exact single rfl rfl rfl
      · simp

theorem below_concludeFunction (hn : H n) {name param body : Node} {middle : List Node}
    (hm : middle ⊆ n.children) (hname : name.All P) (hparam : param.All P) (hbody : body.All P)
    (config : Config) :
    (concludeFunction config n expected name middle param body).Keeps (Env.Stores D) (Below P) := by
  refine (stores_bindName _ _).seq ?_
  split
  · refine (Keeps.emitAll _).seq (Keeps.pure ?_)
    exact List.forall_mem_cons.mpr ⟨hname, List.forall_mem_singleton.mpr hparam⟩
  · refine Keeps.pure ?_
    unfold Below
    rw [functionOf_children]
    refine List.forall_mem_cons.mpr ⟨hname, List.forall_mem_append.mpr ⟨?_, ?_⟩⟩
    · exact fun c hc => all_child law hn (hm hc)
    · have marked := all_markers law config name body (Ty.orVoid body.ty)
      exact List.forall_mem_cons.mpr ⟨hparam, List.forall_mem_cons.mpr ⟨hbody, marked⟩⟩

end Laws

include below

theorem all_paramBlock {raw : Node} (hr : raw ∈ n.children)
    (root : (paramBlock v raw).Yields P) :
    (paramBlock v raw).Keeps (Env.Stores D) (Node.All P) := by
  have children : (paramBlock v raw).Keeps (Env.Stores D) (Below P) := by
    have visited := Keeps.visitAll fun m hm => below m (inside_of_mem_params hr hm) none
    exact (Keeps.emit _).seq (visited.bind fun os _ hos => Keeps.pure hos)
  exact Below.keeps_all children root

theorem all_bodyBlock {raw : Node} (hr : raw ∈ n.children) {guards : List Node}
    (hg : ∀ g ∈ guards, g.All P) (root : (bodyBlock v raw guards).Yields P) :
    (bodyBlock v raw guards).Keeps (Env.Stores D) (Node.All P) := by
  have children : (bodyBlock v raw guards).Keeps (Env.Stores D) (Below P) := by
    have visited := Keeps.visitAll fun m hm => below m (inside_of_mem_statements hr hm) none
    refine (Keeps.emit _).seq ((Keeps.emitAll _).seq (visited.bind fun os _ hos => ?_))
    exact Keeps.pure (List.forall_mem_append.mpr ⟨hg, hos⟩)
  exact Below.keeps_all children root

end Functions

theorem below_functionDecl (law : e.Establishes H P) (hn : H n)
    (below : ∀ m : Node, m.Inside n → ∀ ex, (e.visit m ex).Keeps (Env.Stores D) (Node.All P))
    (trusted : ∀ m, D m → m.All P) (config : Config) :
    (functionDecl config e.visit n expected).Keeps (Env.Stores D) (Below P) := by
  unfold functionDecl
  split
  · rename_i name next more hc
    have hr : rawBody next more ∈ n.children := rawBody_mem_children hc
    have hm : (next :: more).dropLast ⊆ n.children := fun c hd =>
      hc ▸ List.mem_cons_of_mem _ (List.dropLast_subset _ hd)
    refine (below name (Node.inside_of_child (by simp [hc])) expected).bind fun name' _ hname => ?_
    refine (all_paramBlock below hr (law.paramBlock _)).bind fun param _ hparam => ?_
    refine (all_takeGuards law trusted config).bind fun guards _ hg => ?_
    refine (Keeps.emitAll _).seq ?_
    have root := law.bodyBlock (rawBody next more) guards fun g h => (hg g h).1
    refine (all_bodyBlock below hr (fun g h => (hg g h).2) root).bind fun body _ hbody => ?_
    exact below_concludeFunction law hn hm hname hparam hbody config
  · exact below_unvisited law hn rfl

/-- A unit starts from an empty ledger, so nothing need be known of what was gathered before. -/
theorem below_source (law : e.Establishes H P) (hD : ∀ m : Node, m.All P → D m) {v : Visitor}
    (below : ∀ c ∈ n.children, ∀ ex, (v c ex).Keeps (Env.Stores (Node.All P)) (Node.All P)) :
    (source v n expected).Keeps (Env.Stores D) (Below P) := by
  intro env _
  have fresh : (env.updateLedger fun _ => {}).Stores (Node.All P) :=
    ⟨List.forall_mem_nil _, List.forall_mem_nil _⟩
  obtain ⟨children, stores⟩ := all_unitChildren below _ fresh
  refine ⟨List.forall_mem_append.mpr ⟨children, List.forall_mem_singleton.mpr ?_⟩, ?_⟩
  · exact all_made law rfl rfl stores.decls
  · exact ⟨List.forall_mem_nil _, fun p hp => hD p (stores.unguarded p hp)⟩

end Rule

namespace Engine

open Rule Pass

variable {e : Engine} {H P : Node → Prop}

/-- Nothing need be known of nodes in the ledger unless guards are made of them. -/
def Trusts (D P : Node → Prop) (n : Node) : Prop :=
  n.All (·.tag ≠ .functionDecl) ∨ ∀ m, D m → m.All P

theorem Trusts.inside {D P : Node → Prop} {n m : Node} (h : Trusts D P n) (hm : m.Inside n) :
    Trusts D P m :=
  h.imp (fun free => free.inside hm) id

theorem below_visit (he : e.rules = []) (law : e.Establishes H P) (n : Node)
    (expected : Option Ty) (hn : H n) {D : Node → Prop} (hD : ∀ m : Node, m.All P → D m)
    (trusts : Trusts D P n) : (e.visit n expected).Keeps (Env.Stores D) (Below P) := by
  -- What is asked of the ledger changes on the way down, where a unit starts with an empty one.
  revert hn D
  refine e.visit_induction he (Q := fun n _ p => H n → ∀ {D : Node → Prop},
    (∀ m : Node, m.All P → D m) → Trusts D P n → p.Keeps (Env.Stores D) (Below P)) ?_ ?_ n expected
  · intro n _ _ hn D _ _
    exact (Keeps.emit _).seq (below_unvisited law hn rfl)
  · intro n t r ht h ih expected hn D hD trusts
    -- The induction gives the nodes below a child; the law gives the child itself.
    have visits : ∀ {D : Node → Prop}, (∀ m : Node, m.All P → D m) → Trusts D P n →
        ∀ m : Node, m.Inside n → ∀ ex, (e.visit m ex).Keeps (Env.Stores D) (Node.All P) := by
      intro D hD trusts m hm ex
      have inner : H m := law.inside hn hm
      exact Below.keeps_all (ih m hm ex inner hD (trusts.inside hm)) (law.root ex inner)
    have below : ∀ c ∈ n.children, ∀ ex, (e.visit c ex).Keeps (Env.Stores D) (Node.All P) :=
      fun c hc => visits hD trusts c (Node.inside_of_child hc)
    refine (Keeps.emit _).seq ?_
    cases h with
    | source =>
      exact below_source law hD fun c hc =>
        visits (fun _ h => h) (.inr fun _ h => h) c (Node.inside_of_child hc)
    | block | fdParam | fdBody | wordDefine | assumeDecls => exact below_each below _ _ fun _ => rfl
    | title | eventDecl | completeStatement | intExpr => exact below_unvisited law hn rfl
    | importList => exact below_importList law below
    | importDecl => exact below_importDecl law hn
    | variableDecl => exact below_variableDecl law below
    | vPair => exact below_pair law hn (.inr ht)
    | pair => exact below_pair law hn (.inl ht)
    | functionDecl =>
      have trusted := trusts.resolve_left fun free => free.self ht
      exact below_functionDecl law hn (visits hD trusts) trusted e.config
    | functionName => exact below_functionName law hn
    | fdPair => exact below_fdPair law hn hD ht e.config
    | assign => exact below_assign law below hn
    | returnStatement => exact below_returnStatement law below hn
    | recordStatement => exact below_recordStatement law below hn
    | map1 | map2 => exact below_mapping law below hn _
    | raw => exact below_raw law hn
    | structDefine =>
      refine below_structDefine law below hn hD fun out hout => law.root expected hn out ?_
      rw [visit_of_rule he (r := structDefine) (ht ▸ rfl)]
      obtain ⟨env, rfl⟩ := hout
      exact ⟨env, rfl⟩
    | enumType => exact below_enumType law below hD e.config
    | assumeDecl => exact below_assumeDecl law below hn

/-- **Every node.** A property that visits establish holds of each node of the tree that comes
back, and of each node in the ledger afterwards. -/
theorem everywhere_visit (he : e.rules = []) (law : e.Establishes H P) (n : Node)
    (expected : Option Ty) (hn : H n) {D : Node → Prop} (hD : ∀ m : Node, m.All P → D m)
    (trusts : Trusts D P n) : (e.visit n expected).Keeps (Env.Stores D) (Node.All P) :=
  Below.keeps_all (below_visit he law n expected hn hD trusts) (law.root expected hn)

end Engine

end ContractTyping
