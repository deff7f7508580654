import ContractTyping.Proofs.Closure
import ContractTyping.Proofs.Everywhere

/-!
The names of enumerations. An enumeration is called by the stem and the length of the queue when its
definition is added, so its name tells where the definition stands. Main statements:
`Engine.numbers_visit`, a visit keeps the queue numbered; `Engine.unit_numbered`, so is what a unit
ends with; and `Engine.establishes_endsNumbered`, it stays so wherever the unit stands in a tree.
-/

namespace ContractTyping

/-! ## Names with a number -/

theorem numberedName_injective (stem : String) {i j : Nat}
    (h : stem ++ toString i = stem ++ toString j) : i = j := by
  have suffix := (String.append_right_inj stem).mp h
  have digits : Nat.toDigits 10 i = Nat.toDigits 10 j := by
    simpa [Nat.toString_eq_repr, Nat.toList_repr] using congrArg String.toList suffix
  simpa using congrArg (Nat.ofDigitChars 10 · 0) digits

theorem numberedName_getLast? (stem : String) (i : Nat) :
    ∃ c, (stem ++ toString i).toList.getLast? = some c ∧ c.isDigit = true := by
  have digits : (toString i).toList = Nat.toDigits 10 i := by
    rw [Nat.toString_eq_repr, Nat.toList_repr]
  have nonempty : Nat.toDigits 10 i ≠ [] := Nat.toDigits_ne_nil
  refine ⟨(Nat.toDigits 10 i).getLast nonempty, ?_, ?_⟩
  · rw [String.toList_append, digits, List.getLast?_append_of_ne_nil _ nonempty]
    exact List.getLast?_eq_some_getLast nonempty
  · exact Nat.isDigit_of_mem_toDigits (by decide) (by decide) (List.getLast_mem nonempty)

/-- A name with a number ends in a digit, so it is not that of a generic integer. -/
theorem fixedWidth_numberedName (stem : String) (i : Nat) :
    fixedWidth (stem ++ toString i) = stem ++ toString i := by
  obtain ⟨c, last, digit⟩ := numberedName_getLast? stem i
  have letter : ∀ s : String, s.toList.getLast? = some 't' → stem ++ toString i ≠ s := by
    rintro s hs rfl
    obtain rfl := Option.some.inj (hs.symm.trans last)
    revert digit
    decide
  unfold fixedWidth
  rw [if_neg (letter "int" (by decide)), if_neg (letter "uint" (by decide))]

/-! ## Numbered declarations -/

namespace Node

/-- What the definition of an enumeration is called. -/
def enumName? (d : Node) : Option String := d.children[1]?.map text

/-- What a structure is called. -/
def structName? (d : Node) : Option String := d.children[0]?.map text

/-- The definition of an enumeration that is called by the stem and a number. -/
def IsEnumNumbered (stem : String) (i : Nat) (d : Node) : Prop :=
  d.tag = .enumDefine ∧
    d.children[1]? = some ((leaf .text (stem ++ toString i)).withContext "name")

theorem IsEnumNumbered.enumName? {stem : String} {i : Nat} {d : Node}
    (h : d.IsEnumNumbered stem i) : d.enumName? = some (stem ++ toString i) := by
  rw [Node.enumName?, h.2]
  rfl

theorem IsEnumNumbered.normalizeValue {stem : String} {i : Nat} {d : Node}
    (h : d.IsEnumNumbered stem i) : d.normalizeValue.IsEnumNumbered stem i := by
  constructor
  · rw [normalizeValue_tag]
    exact h.1
  · rw [normalizeValue_children, List.getElem?_map, h.2]
    have name : ((leaf .text (stem ++ toString i)).withContext "name").normalizeValue =
        (leaf .text (fixedWidth (stem ++ toString i))).withContext "name" := rfl
    rw [Option.map_some, name, fixedWidth_numberedName]

end Node

/-- At every position stands a structure, or the definition of an enumeration whose number is the
position. -/
def Numbered (stem : String) (decls : List Node) : Prop :=
  ∀ (i : Nat) (d : Node), decls[i]? = some d → d.tag = .structDefine ∨ d.IsEnumNumbered stem i

/-- No two definitions of enumerations have the same name. -/
def DistinctEnums (decls : List Node) : Prop :=
  decls.Pairwise fun d d' => d.tag = .enumDefine → d'.tag = .enumDefine →
    d.enumName? ≠ d'.enumName?

namespace Numbered

variable {stem : String} {decls : List Node}

theorem nil : Numbered stem [] := by
  intro i d h
  simp at h

theorem concat (h : Numbered stem decls) {d : Node}
    (hd : d.tag = .structDefine ∨ d.IsEnumNumbered stem decls.length) :
    Numbered stem (decls ++ [d]) := by
  intro i d' found
  rcases Nat.lt_trichotomy i decls.length with before | rfl | after
  · rw [List.getElem?_append_left before] at found
    exact h i d' found
  · rw [List.getElem?_concat_length] at found
    obtain rfl := Option.some.inj found
    exact hd
  · have outside : (decls ++ [d])[i]? = none := by
      rw [List.getElem?_eq_none_iff, List.length_append, List.length_singleton]
      omega
    rw [outside] at found
    cases found

theorem enumName? (h : Numbered stem decls) {i : Nat} {d : Node} (found : decls[i]? = some d)
    (ht : d.tag = .enumDefine) : d.enumName? = some (stem ++ toString i) := by
  rcases h i d found with struct | enum
  · rw [struct] at ht
    cases ht
  · exact enum.enumName?

theorem distinctEnums (h : Numbered stem decls) : DistinctEnums decls := by
  apply List.pairwise_iff_getElem.mpr
  intro i j hi hj lt first second same
  rw [h.enumName? (List.getElem?_eq_getElem hi) first,
    h.enumName? (List.getElem?_eq_getElem hj) second] at same
  have position := numberedName_injective stem (Option.some.inj same)
  omega

theorem normalizeValue (h : Numbered stem decls) :
    Numbered stem (decls.map Node.normalizeValue) := by
  intro i d found
  rw [List.getElem?_map] at found
  obtain ⟨d', before, rfl⟩ := Option.map_eq_some_iff.mp found
  rcases h i d' before with struct | enum
  · left
    rw [Node.normalizeValue_tag]
    exact struct
  · right
    exact enum.normalizeValue

end Numbered

/-- The declarations are numbered, and the structures among them have a property. -/
structure InOrder (stem : String) (S : Node → Prop) (decls : List Node) : Prop where
  numbered : Numbered stem decls
  structs : ∀ d ∈ decls, d.tag = .structDefine → S d

namespace InOrder

variable {stem : String} {S : Node → Prop} {decls : List Node}

theorem nil : InOrder stem S [] := ⟨Numbered.nil, by simp⟩

theorem addStruct (h : InOrder stem S decls) {d : Node} (ht : d.tag = .structDefine) (hd : S d) :
    InOrder stem S (decls ++ [d]) := by
  refine ⟨h.numbered.concat (.inl ht), ?_⟩
  exact List.forall_mem_append.mpr ⟨h.structs, by simpa using fun _ => hd⟩

theorem addEnum (h : InOrder stem S decls) {d : Node} (hd : d.IsEnumNumbered stem decls.length) :
    InOrder stem S (decls ++ [d]) := by
  refine ⟨h.numbered.concat (.inr hd), ?_⟩
  exact List.forall_mem_append.mpr ⟨h.structs, by simp [hd.1]⟩

end InOrder

/-! ## Rules and the queue -/

namespace Pass

/-- The queue stays in order. -/
def Numbers (stem : String) (S : Node → Prop) (p : Pass α) : Prop :=
  p.Keeps (fun env => InOrder stem S env.ledger.decls) fun _ => True

theorem Numbers.closed (stem : String) (S : Node → Prop) (names : List String) :
    Closed names fun _ p => p.Numbers stem S :=
  Keeps.closed (fun l => InOrder stem S l.decls) names

end Pass

namespace Rule

open Pass

variable {stem : String} {S : Node → Prop} {visit : Visitor} {n : Node} {expected : Option Ty}
  (below : ∀ c ∈ n.children, ∀ ex, (visit c ex).Numbers stem S)

include below

/-- The queued copy has the name of the structure, as the name is not visited. -/
theorem numbers_structDefine (ht : n.tag = .structDefine)
    (hS : ∀ d : Node, d.structName? = n.structName? → S d) :
    (structDefine visit n expected).Numbers stem S := by
  have closed := Numbers.closed stem S []
  unfold structDefine
  split
  · rename_i name fields hc
    have sub : fields ⊆ n.children := hc ▸ List.subset_cons_self name fields
    refine closed.bind (closed_children closed expected below sub) fun fields' _ => ?_
    have named : S (Node.adopt { n with children := name :: fields' } expected) := by
      apply hS
      simp [Node.structName?, Node.adopt, Node.withType, hc]
    refine closed_seq closed (Keeps.bindName fun _ order => order) (closed_emit closed _ ?_)
    exact closed_seq closed (Keeps.updateLedger fun _ order => order.addStruct ht named)
      (closed.pure _)
  · exact closed.pure _

/-- The name is made after the children are visited, when the queue is as long as its number. -/
theorem numbers_enumType (config : Config) (hstem : config.enumStem = stem) :
    (enumType config visit n expected).Numbers stem S := by
  have closed := Numbers.closed stem S []
  refine closed.bind (closed_children closed expected below fun _ hm => hm) fun children _ => ?_
  intro env order
  refine ⟨trivial, order.addEnum ⟨rfl, ?_⟩⟩
  rw [← hstem]
  rfl

/-- A unit starts from an empty queue and ends with what the visits of its children queue. -/
theorem numbers_source :
    (source visit n expected).Triple (fun _ => True) fun out _ =>
      ∃ others decls, out.children = others ++ [hoistedDecls decls] ∧
        others.length = n.children.length ∧ InOrder stem S decls := by
  intro env _
  have children := closed_unitChildren (Numbers.closed stem S []) below
  have order := (children (env.updateLedger fun _ => {}) InOrder.nil).2
  have returned := (unitChildren visit n.children).returns_self (env.updateLedger fun _ => {})
  refine ⟨_, _, rfl, ?_, order⟩
  exact (unitChildren_returns returned).length_eq.symm

end Rule

namespace Engine

open Pass

variable {e : Engine} {S : Node → Prop}

/-- A property of structures that depends on their names, and that those of the tree have. -/
def NamesStructs (S : Node → Prop) (n : Node) : Prop :=
  n.All fun m => m.tag = .structDefine → ∀ d : Node, d.structName? = m.structName? → S d

/-- **The queue is numbered.** -/
theorem numbers_visit (he : e.rules = []) (n : Node) (expected : Option Ty)
    (hn : NamesStructs S n) : (e.visit n expected).Numbers e.config.enumStem S := by
  refine e.visit_induction he (Q := fun m _ p => NamesStructs S m →
    p.Numbers e.config.enumStem S) ?_ ?_ n expected hn
  · intro n _ _ _ env order
    exact ⟨trivial, order⟩
  · intro n t r ht h inside expected hn
    have closed := Numbers.closed e.config.enumStem S n.texts
    have below : ∀ m : Node, m.Inside n → ∀ ex, (e.visit m ex).Numbers e.config.enumStem S :=
      fun m hm ex => inside m hm ex (hn.inside hm)
    have children := fun c hc => below c (Node.inside_of_child hc)
    have permitted : Permits (fun _ p => p.Numbers e.config.enumStem S) t →
        (r e.visit n expected).Numbers e.config.enumStem S := fun permits =>
      closed_rule_of_inside closed h permits (List.Subset.refl _) (visit_head he) below expected
    have bind : ∀ name ty, (bindName name ty).Numbers e.config.enumStem S :=
      fun _ _ => Keeps.bindName fun _ order => order
    refine Rule.closed_emit closed _ ?_
    -- Only two rules add to the queue, and what they add depends on the node or the queue.
    cases h with
    | structDefine => exact Rule.numbers_structDefine children ht (hn.self ht)
    | enumType => exact Rule.numbers_enumType children e.config rfl
    | source =>
      exact permitted ⟨Keeps.updateLedger fun _ _ => .nil, Keeps.updateLedger fun _ _ => .nil⟩
    | importDecl => exact permitted fun _ => Keeps.updateLedger fun _ order => order
    | functionName => exact permitted fun _ _ => Keeps.updateLedger fun _ order => order
    | fdPair => exact permitted fun _ => Keeps.updateLedger fun _ order => order
    | functionDecl => exact permitted ⟨bind, Keeps.updateLedger fun _ order => order⟩
    | assumeDecl => exact permitted bind
    | _ => exact permitted trivial

theorem unit_numbered (he : e.rules = []) {n : Node} (ht : n.tag = .source)
    (hn : NamesStructs S n) (expected : Option Ty) (env : Env) :
    ∃ others decls, (e.visit n expected env).value.children =
        others ++ [Rule.hoistedDecls decls] ∧
      others.length = n.children.length ∧ InOrder e.config.enumStem S decls := by
  have rule : e.rule? n.tag = some Rule.source := by
    rw [ht]
    rfl
  have below : ∀ c ∈ n.children, ∀ ex, (e.visit c ex).Numbers e.config.enumStem S :=
    fun c hc ex => numbers_visit he c ex (hn.child hc)
  rw [visit_of_rule he rule]
  exact Rule.numbers_source below env trivial

/-! ## Environments -/

/-- The environments that an engine comes to: fresh ones, and from these by visits of any nodes, by
bindings and by emptying the ledger. -/
inductive Reaches (e : Engine) : Env → Prop
  | ofConfig (config : Config) : e.Reaches (.ofConfig config)
  | empty : e.Reaches {}
  | visit (n : Node) (expected : Option Ty) {env : Env} :
    e.Reaches env → e.Reaches (e.visit n expected env).env
  | bind (name : String) (ty : Ty) {env : Env} : e.Reaches env → e.Reaches (env.bind name ty)
  | reset {env : Env} : e.Reaches env → e.Reaches (env.updateLedger fun _ => {})

theorem Reaches.numbered (he : e.rules = []) {env : Env} (h : e.Reaches env) :
    Numbered e.config.enumStem env.ledger.decls := by
  suffices order : InOrder e.config.enumStem (fun _ => True) env.ledger.decls from order.numbered
  induction h with
  | ofConfig | empty | reset => exact .nil
  | visit n expected _ ih =>
    have numbers := numbers_visit he n expected fun _ _ _ _ _ => trivial
    exact (numbers _ ih).2
  | bind _ _ _ ih => exact ih

/-! ## Units inside a tree -/

/-- If a unit ends with hoisted declarations, they are numbered. -/
def EndsNumbered (stem : String) (m : Node) : Prop :=
  m.tag = .source → ∀ t ∈ m.children.getLast?, t.tag = .typeDecls → Numbered stem t.children

theorem endsNumbered_of_free {stem : String} {m : Node}
    (h : m.All fun k => k.tag ≠ .typeDecls) : EndsNumbered stem m := by
  intro _ t last ht
  exact absurd ht (h.child (List.mem_of_getLast? last)).self

theorem EndsNumbered.normalizeValue {stem : String} {m : Node} (h : EndsNumbered stem m) :
    EndsNumbered stem m.normalizeValue := by
  intro ht t last kind
  rw [Node.normalizeValue_tag] at ht
  rw [Node.normalizeValue_children, List.getLast?_map] at last
  obtain ⟨t', before, rfl⟩ := Option.map_eq_some_iff.mp last
  rw [Node.normalizeValue_tag] at kind
  rw [Node.normalizeValue_children]
  exact (h ht t' before kind).normalizeValue

theorem endsNumbered_visit (he : e.rules = []) (n : Node) (expected : Option Ty) :
    (e.visit n expected).Yields (EndsNumbered e.config.enumStem) := by
  rintro out ⟨env, rfl⟩ ht t last _
  have kind : n.tag = .source := by
    rcases (visit_head he n expected _ (returns_self _ env)).tag with same | ⟨-, event⟩
    · rw [← same]
      exact ht
    · rw [event] at ht
      cases ht
  obtain ⟨others, decls, children, _, order⟩ :=
    unit_numbered (S := fun _ => True) he kind (fun _ _ _ _ _ => trivial) expected env
  rw [children, List.getLast?_concat] at last
  obtain rfl := Option.some.inj last
  exact order.numbered

/-- Trees without hoisted declarations of their own come back with none but those of the pass. -/
theorem establishes_endsNumbered (he : e.rules = []) :
    e.Establishes (fun n => n.All fun m => m.tag ≠ .typeDecls)
      (EndsNumbered e.config.enumStem) where
  inside h hm := h.inside hm
  untouched h := endsNumbered_of_free h
  root expected _ := endsNumbered_visit he _ expected
  named {_ name} _ h hname := by
    have free := h.child (Node.mem_of_nameChild? hname)
    exact endsNumbered_of_free (m := name) free
  normalized h := h.normalizeValue
  made kind _ ht := by
    rw [ht] at kind
    cases kind
  paramBlock raw param returned ht := by
    rw [(Rule.paramBlock_returns returned).1] at ht
    cases ht
  bodyBlock raw guards _ body returned ht := by
    rw [(Rule.bodyBlock_returns returned).1] at ht
    cases ht

theorem checkUnit_endsNumbered (he : e.rules = []) {tree : Node}
    (h : tree.All fun m => m.tag ≠ .typeDecls) :
    (e.checkUnit tree).value.All (EndsNumbered e.config.enumStem) := by
  have start : (Env.ofConfig e.config).Stores (Node.All (EndsNumbered e.config.enumStem)) :=
    ⟨List.forall_mem_nil _, List.forall_mem_nil _⟩
  exact (everywhere_visit he (establishes_endsNumbered he) tree (some .void) h (fun _ h => h)
    (.inr fun _ h => h) _ start).1

/-! ## Names in a unit -/

/-- **Generated names are unique.** In every environment that an engine comes to, what is queued at
a position is a structure, or an enumeration whose number is the position. The same holds of what a
unit ends with, whatever was queued before, and it stays so where the unit is part of a tree. So no
two enumerations of a unit have the same name. -/
theorem enumNames_numbered (e : Engine) (he : e.rules = []) :
    (∀ env, e.Reaches env → Numbered e.config.enumStem env.ledger.decls) ∧
    (∀ (n : Node) (expected : Option Ty) (env : Env), n.tag = .source →
      ∃ others decls, (e.visit n expected env).value.children =
          others ++ [Rule.hoistedDecls decls] ∧
        others.length = n.children.length ∧ Numbered e.config.enumStem decls ∧
        DistinctEnums decls) ∧
    ∀ tree : Node, (tree.All fun m => m.tag ≠ .typeDecls) →
      (e.checkUnit tree).value.All fun m => m.tag = .source →
        ∀ t ∈ m.children.getLast?, t.tag = .typeDecls →
          Numbered e.config.enumStem t.children ∧ DistinctEnums t.children := by
  refine ⟨fun env h => h.numbered he, ?_, ?_⟩
  · intro n expected env ht
    obtain ⟨others, decls, children, length, order⟩ :=
      unit_numbered (S := fun _ => True) he ht (fun _ _ _ _ _ => trivial) expected env
    exact ⟨others, decls, children, length, order.numbered, order.numbered.distinctEnums⟩
  · intro tree free m hm ht t last kind
    have numbered := checkUnit_endsNumbered he free m hm ht t last kind
    exact ⟨numbered, numbered.distinctEnums⟩

/-- An engine that numbers kinds. -/
def kinds : Engine := { config := { enumStem := "Kind" } }

/-- An enumeration with a structure and another enumeration among its elements. -/
def shape : Node :=
  { tag := .enumType
    children := [
      { tag := .structDefine, children := [.leaf .text "Point"] },
      { tag := .enumType, children := [.leaf .text "Round"] }] }

/-- A unit after another one in a block. -/
def shapes : Node :=
  { tag := .source
    children := [
      { tag := .block
        children := [
          { tag := .source, children := [{ tag := .enumType, children := [.leaf .text "On"] }] }] },
      shape] }

/-- The inner enumeration is queued before the outer one; the count starts again with a unit. -/
theorem enumNames_numbered_shapes :
    kinds.rules = [] ∧ kinds.Reaches (kinds.visit shape none {}).env ∧
    Numbered "Kind" (kinds.visit shape none {}).env.ledger.decls ∧
    (kinds.visit shape none {}).env.ledger.decls.map Node.enumName? =
      [none, some "Kind1", some "Kind2"] ∧
    shapes.tag = .source ∧ (shapes.All fun m => m.tag ≠ .typeDecls) ∧
    (∃ others decls, (kinds.visit shapes none (kinds.visit shape none {}).env).value.children =
        others ++ [Rule.hoistedDecls decls] ∧
      others.length = 2 ∧ Numbered "Kind" decls ∧ DistinctEnums decls) ∧
    (kinds.checkUnit shapes).value.All fun m => m.tag = .source →
      ∀ t ∈ m.children.getLast?, t.tag = .typeDecls →
        Numbered "Kind" t.children ∧ DistinctEnums t.children := by
  have reached : kinds.Reaches (kinds.visit shape none {}).env := .visit shape none .empty
  have free : shapes.All fun m => m.tag ≠ .typeDecls := by decide
  obtain ⟨environments, units, trees⟩ := enumNames_numbered kinds rfl
  exact ⟨rfl, reached, environments _ reached, rfl, rfl, free, units shapes none _ rfl,
    trees shapes free⟩

/-- **Generated names and structures.** An enumeration of a unit shares its name with a structure
of the unit only if the tree has a structure that is called by the stem and the number of the
enumeration. -/
theorem checkUnit_enumNames_fresh (config : Config) (tree : Node) (unit : tree.tag = .source) :
    ∃ others decls, (checkUnit { config } tree).value.children =
        others ++ [Rule.hoistedDecls decls] ∧
      others.length = tree.children.length ∧
      ∀ (i : Nat) (d : Node), decls[i]? = some d → d.tag = .enumDefine →
        (∀ m ∈ tree.nodes, m.tag = .structDefine →
          m.structName? ≠ some (config.enumStem ++ toString i)) →
        ∀ s ∈ decls, s.tag = .structDefine → d.enumName? ≠ s.structName? := by
  -- What is known of a queued structure is that the tree has one with its name.
  have named : NamesStructs (fun d => ∃ m ∈ tree.nodes, m.tag = .structDefine ∧
      d.structName? = m.structName?) tree :=
    fun m hm ht d same => ⟨m, hm, ht, same⟩
  obtain ⟨others, decls, children, length, order⟩ :=
    unit_numbered (e := { config }) rfl unit named (some .void) (.ofConfig config)
  refine ⟨others, decls, children, length, ?_⟩
  intro i d found enum unused s hs struct same
  obtain ⟨m, hm, ht, name⟩ := order.structs s hs struct
  apply unused m hm ht
  rw [← name, ← same]
  exact order.numbered.enumName? found enum

/-- A structure that is called by the stem and a number. -/
def numberedStruct (name : String) : Node :=
  { tag := .source
    children := [
      { tag := .structDefine, children := [.leaf .text name] },
      { tag := .enumType, children := [.leaf .text "Open", .leaf .text "Closed"] }] }

/-- The number of no enumeration does no harm: the structure is hoisted in front of the enumeration,
and their names differ. -/
theorem checkUnit_enumNames_fresh_seven :
    (numberedStruct "Enum7").tag = .source ∧
    (∀ m ∈ (numberedStruct "Enum7").nodes, m.tag = .structDefine →
      m.structName? ≠ some ("Enum" ++ toString 1)) ∧
    ∃ others s d, (checkUnit {} (numberedStruct "Enum7")).value.children =
        others ++ [Rule.hoistedDecls [s, d]] ∧
      s.tag = .structDefine ∧ d.tag = .enumDefine ∧ d.enumName? ≠ s.structName? := by
  have unused : ∀ m ∈ (numberedStruct "Enum7").nodes, m.tag = .structDefine →
      m.structName? ≠ some ("Enum" ++ toString 1) := by decide
  obtain ⟨others, decls, children, _, fresh⟩ :=
    checkUnit_enumNames_fresh {} (numberedStruct "Enum7") rfl
  have last := congrArg List.getLast? children
  rw [List.getLast?_concat] at last
  obtain ⟨s, d, rfl, struct, enum⟩ : ∃ s d, decls = [s, d] ∧ s.tag = .structDefine ∧
      d.tag = .enumDefine := ⟨_, _, (congrArg Node.children (Option.some.inj last)).symm, rfl, rfl⟩
  exact ⟨rfl, unused, others, s, d, children, struct, enum,
    fresh 1 d rfl enum unused s List.mem_cons_self struct⟩

/-- The structure takes the first place of the queue and the name of the enumeration in the
second. -/
theorem checkUnit_enumName_clash :
    (numberedStruct "Enum1").tag = .source ∧ (numberedStruct "Enum1").Unannotated ∧
    (∀ c ∈ (numberedStruct "Enum1").children, c.All fun m => m.tag ≠ .source) ∧
    ∃ t d s, (checkUnit {} (numberedStruct "Enum1")).value.children.getLast? = some t ∧
      t.tag = .typeDecls ∧ d ∈ t.children ∧ d.tag = .enumDefine ∧ s ∈ t.children ∧
      s.tag = .structDefine ∧ d.enumName? = s.structName? :=
  ⟨rfl, by decide, by decide, _, _, _, rfl, rfl, .tail _ (.head _), rfl, .head _, rfl, rfl⟩

end Engine

end ContractTyping
