import ContractTyping.Literal

/-!
The nodes of a tree, and properties that hold at every node of it. A tree is unannotated when the
pass has not touched it: no node has a type, a diagnostic or the mark of being finished.
-/

namespace ContractTyping.Node

mutual

/-- The nodes of a tree, a node before its children. -/
def nodes : Node → List Node
  | n@⟨_, children, _, _, _, _, _, _⟩ => n :: nodesList children

def nodesList : List Node → List Node
  | [] => []
  | n :: ns => n.nodes ++ nodesList ns

end

theorem nodesList_eq_flatMap (ns : List Node) : nodesList ns = ns.flatMap nodes := by
  induction ns with
  | nil => rfl
  | cons n ns ih => simp [nodesList, ih]

theorem nodes_eq (n : Node) : n.nodes = n :: n.children.flatMap nodes := by
  cases n
  rw [nodes, nodesList_eq_flatMap]

theorem mem_nodes_self (n : Node) : n ∈ n.nodes := by
  rw [nodes_eq]
  exact List.mem_cons_self

theorem mem_nodes_of_child {m c n : Node} (hc : c ∈ n.children) (hm : m ∈ c.nodes) :
    m ∈ n.nodes := by
  rw [nodes_eq]
  exact List.mem_cons_of_mem _ (List.mem_flatMap.mpr ⟨c, hc, hm⟩)

theorem mem_nodes_iff {m n : Node} : m ∈ n.nodes ↔ m = n ∨ ∃ c ∈ n.children, m ∈ c.nodes := by
  rw [nodes_eq, List.mem_cons, List.mem_flatMap]

/-- Induction from the children of a node to the node. -/
theorem induction_on_children {P : Node → Prop} (step : ∀ n, (∀ c ∈ n.children, P c) → P n)
    (n : Node) : P n :=
  step n fun c _ => induction_on_children step c
termination_by n.size
decreasing_by exact size_lt_of_mem_children ‹_›

theorem nodes_subset_of_mem {m n : Node} (h : m ∈ n.nodes) : m.nodes ⊆ n.nodes := by
  induction n using induction_on_children with
  | step n ih =>
    rcases mem_nodes_iff.mp h with rfl | ⟨c, hc, hm⟩
    · exact fun _ hk => hk
    · exact fun k hk => mem_nodes_of_child hc (ih c hc hm hk)

theorem size_le_of_mem_nodes {m n : Node} (h : m ∈ n.nodes) : m.size ≤ n.size := by
  induction n using induction_on_children with
  | step n ih =>
    rcases mem_nodes_iff.mp h with rfl | ⟨c, hc, hm⟩
    · exact Nat.le_refl _
    · have inner := ih c hc hm
      have outer := size_lt_of_mem_children hc
      omega

/-- A node strictly below another. -/
def Inside (m n : Node) : Prop := ∃ c ∈ n.children, m ∈ c.nodes

theorem inside_of_child {m n : Node} (h : m ∈ n.children) : m.Inside n :=
  ⟨m, h, m.mem_nodes_self⟩

theorem Inside.child {k m n : Node} (h : m.Inside n) (hk : k ∈ m.children) : k.Inside n := by
  obtain ⟨c, hc, hm⟩ := h
  exact ⟨c, hc, nodes_subset_of_mem hm (mem_nodes_of_child hk k.mem_nodes_self)⟩

theorem Inside.mem_nodes {m n : Node} (h : m.Inside n) : m ∈ n.nodes := by
  obtain ⟨c, hc, hm⟩ := h
  exact mem_nodes_of_child hc hm

theorem Inside.size_lt {m n : Node} (h : m.Inside n) : m.size < n.size := by
  obtain ⟨c, hc, hm⟩ := h
  exact Nat.lt_of_le_of_lt (size_le_of_mem_nodes hm) (size_lt_of_mem_children hc)

/-! ## Positions -/

theorem descendant?_cons (n : Node) (i : Nat) (path : List Nat) :
    n.descendant? (i :: path) = n.children[i]?.bind (descendant? · path) := by
  rw [descendant?, child?]

/-- What works on every node alone leaves each of them at its position. -/
theorem descendant?_map {f : Node → Node} (each : ∀ m, (f m).children = m.children.map f) (n : Node)
    (path : List Nat) : (f n).descendant? path = (n.descendant? path).map f := by
  induction path generalizing n with
  | nil => rfl
  | cons i path ih =>
    rw [descendant?_cons, descendant?_cons, each, List.getElem?_map]
    cases n.children[i]? with
    | none => rfl
    | some c => exact ih c

/-! ## Properties of every node -/

/-- Every node of a tree has a property. -/
def All (p : Node → Prop) (n : Node) : Prop := ∀ m ∈ n.nodes, p m

instance (p : Node → Prop) [DecidablePred p] (n : Node) : Decidable (n.All p) :=
  inferInstanceAs (Decidable (∀ m ∈ n.nodes, p m))

theorem all_iff {p : Node → Prop} {n : Node} :
    n.All p ↔ p n ∧ ∀ c ∈ n.children, c.All p := by
  constructor
  · intro h
    exact ⟨h n n.mem_nodes_self, fun c hc m hm => h m (mem_nodes_of_child hc hm)⟩
  · rintro ⟨hn, hc⟩ m hm
    rcases mem_nodes_iff.mp hm with rfl | ⟨c, hmem, hk⟩
    · exact hn
    · exact hc c hmem m hk

theorem All.self {p : Node → Prop} {n : Node} (h : n.All p) : p n := h n n.mem_nodes_self

theorem All.child {p : Node → Prop} {n c : Node} (h : n.All p) (hc : c ∈ n.children) : c.All p :=
  (all_iff.mp h).2 c hc

theorem All.inside {p : Node → Prop} {n m : Node} (h : n.All p) (hm : m.Inside n) : m.All p :=
  fun k hk => h k (nodes_subset_of_mem hm.mem_nodes hk)

theorem All.mono {p q : Node → Prop} {n : Node} (hpq : ∀ m, p m → q m) (h : n.All p) : n.All q :=
  fun m hm => hpq m (h m hm)

theorem all_leaf {p : Node → Prop} {n : Node} (hn : p n) (hc : n.children = []) : n.All p :=
  all_iff.mpr ⟨hn, by simp [hc]⟩

/-! ## Fixing widths

Only payloads change when the widths of a literal are fixed. -/

theorem normalizeValue_children (m : Node) :
    m.normalizeValue.children = m.children.map normalizeValue := by
  obtain ⟨tag, children, payload⟩ := m
  cases children <;> simp [normalizeValue, normalizeValues_eq_map]

theorem descendant?_normalizeValue (m : Node) (path : List Nat) :
    m.normalizeValue.descendant? path = (m.descendant? path).map normalizeValue :=
  descendant?_map normalizeValue_children m path

theorem normalizeValue_tag (m : Node) : m.normalizeValue.tag = m.tag := by
  obtain ⟨tag, children, payload⟩ := m
  cases children <;> rfl

theorem normalizeValue_ty (m : Node) : m.normalizeValue.ty = m.ty := by
  obtain ⟨tag, children, payload⟩ := m
  cases children <;> rfl

theorem normalizeValue_error (m : Node) : m.normalizeValue.error = m.error := by
  obtain ⟨tag, children, payload⟩ := m
  cases children <;> rfl

theorem normalizeValue_done (m : Node) : m.normalizeValue.done = m.done := by
  obtain ⟨tag, children, payload⟩ := m
  cases children <;> rfl

theorem All.normalizeValue {p : Node → Prop} (keep : ∀ m, p m → p m.normalizeValue) {n : Node}
    (h : n.All p) : n.normalizeValue.All p := by
  induction n using induction_on_children with
  | step n ih =>
    obtain ⟨hn, hc⟩ := all_iff.mp h
    refine all_iff.mpr ⟨keep n hn, ?_⟩
    rw [normalizeValue_children]
    exact List.forall_mem_map.mpr fun c hm => ih c hm (hc c hm)

/-- A childless literal names one type, which is the empty name if there is no payload. -/
theorem literalType_normalizeValue_of_leaf {v : Node} (h : v.children = []) :
    v.normalizeValue.literalType = .named (fixedWidth v.text) := by
  obtain ⟨tag, children, payload⟩ := v
  cases h
  cases payload with
  | none => rfl
  | some s => rfl

theorem literalType_normalizeValue_of_children {v : Node} (h : v.children ≠ []) :
    v.normalizeValue.literalType =
      .list (v.children.map fun c => c.normalizeValue.literalType) := by
  have sequence : v.normalizeValue.children ≠ [] := by simpa [normalizeValue_children] using h
  rw [literalType_of_children sequence, normalizeValue_children, List.map_map]
  rfl

/-! ## Trees before the pass -/

/-- Neither typed nor failed nor finished. -/
def Blank (n : Node) : Prop := n.ty = none ∧ n.error = none ∧ n.done = false

instance (n : Node) : Decidable n.Blank := inferInstanceAs (Decidable (_ ∧ _ ∧ _))

/-- The pass has not touched any node of the tree. -/
def Unannotated (n : Node) : Prop := n.All Blank

instance (n : Node) : Decidable n.Unannotated := inferInstanceAs (Decidable (n.All Blank))

theorem Unannotated.child {n c : Node} (h : n.Unannotated) (hc : c ∈ n.children) : c.Unannotated :=
  All.child h hc

/-- The texts by which nodes of a tree may be looked up. -/
def texts (n : Node) : List String := n.nodes.map text

theorem text_of_payload {n : Node} {s : String} (h : n.payload = some s) : n.text = s := by
  cases n
  cases h
  rfl

theorem text_of_children {n first : Node} {rest : List Node} (h : n.children = first :: rest) :
    n.text = n.payload.getD first.text := by
  rcases n with ⟨_, _, _ | _⟩ <;> cases h <;> rfl

theorem text_mem_texts (n : Node) : n.text ∈ n.texts :=
  List.mem_map.mpr ⟨n, n.mem_nodes_self, rfl⟩

theorem Inside.texts_subset {m n : Node} (h : m.Inside n) : m.texts ⊆ n.texts :=
  List.map_subset text (nodes_subset_of_mem h.mem_nodes)

theorem child_text_mem_texts {c n : Node} (h : c ∈ n.children) : c.text ∈ n.texts :=
  (inside_of_child h).texts_subset c.text_mem_texts

end ContractTyping.Node
