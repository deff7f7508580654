import ContractTyping.Proofs.Tree
import ContractTyping.Proofs.TypeNames
import ContractTyping.Wire.Node
import Mathlib.Data.List.Nodup

/-!
The JSON form of trees, read back. An object is written from a list of fields of which some are left
out; reading finds the fields that were written and puts defaults for the others. Main statements:
`Node.ofJson?_toJson`, a tree with canonical kinds and readable types is read back as it was
written; and `Node.writable_of_ofJson?`, every tree that is read is such a tree.
-/

namespace ContractTyping

namespace Json

/-! ## Objects -/

/-- The entries of an object whose fields may be left out. -/
def entriesOf (fields : List (String × Option Json)) : Entries :=
  fields.filterMap fun field => field.2.map fun j => (some field.1, j)

theorem obj_eq (fields : List (String × Json)) :
    obj fields = .object (fields.map fun entry => (some entry.1, entry.2)) := rfl

theorem entriesOf_cons (field : String × Option Json) (fields : List (String × Option Json)) :
    entriesOf (field :: fields) =
      (field.2.toList.map fun j => (some field.1, j)) ++ entriesOf fields := by
  obtain ⟨key, value⟩ := field
  cases value <;> simp [entriesOf]

@[simp]
theorem field?_nil (key : String) : field? key [] = none := rfl

@[simp]
theorem field?_cons (key : String) (entry : Spelling × Json) (entries : Entries) :
    field? key (entry :: entries) =
      if entry.1 = some key then some entry.2 else field? key entries := by
  obtain ⟨k, j⟩ := entry
  by_cases h : k = some key
  · simp [field?, h]
  · have differs : (some key == k) = false := beq_eq_false_iff_ne.mpr (Ne.symm h)
    simp [field?, List.lookup_cons, h, differs]

theorem field?_entriesOf_of_not_mem {key : String} {fields : List (String × Option Json)}
    (h : key ∉ fields.map Prod.fst) : field? key (entriesOf fields) = none := by
  induction fields with
  | nil => rfl
  | cons field fields ih =>
    obtain ⟨k, value⟩ := field
    simp only [List.map_cons, List.mem_cons, not_or] at h
    cases value with
    | none => simpa [entriesOf_cons] using ih h.2
    | some j => simpa [entriesOf_cons, Ne.symm h.1] using ih h.2

/-- A field of which there is one is found, if it was not left out. -/
theorem field?_entriesOf {key : String} {fields : List (String × Option Json)} {value : Option Json}
    (h : (fields.map Prod.fst).Nodup) (hm : (key, value) ∈ fields) :
    field? key (entriesOf fields) = value := by
  induction fields with
  | nil => simp at hm
  | cons field fields ih =>
    obtain ⟨k, v⟩ := field
    simp only [List.map_cons, List.nodup_cons] at h
    rcases List.mem_cons.mp hm with e | later
    · cases e
      cases value with
      | none => simpa [entriesOf_cons] using field?_entriesOf_of_not_mem h.1
      | some j => simp [entriesOf_cons]
    · have other : k ≠ key := by
        rintro rfl
        exact h.1 (List.mem_map.mpr ⟨_, later, rfl⟩)
      cases v with
      | none => simpa [entriesOf_cons] using ih h.2 later
      | some j => simpa [entriesOf_cons, other] using ih h.2 later

theorem required_entriesOf {key : String} {fields : List (String × Option Json)} {j : Json}
    (h : (fields.map Prod.fst).Nodup) (hm : (key, some j) ∈ fields) (read : Json → Option α) :
    required key read (entriesOf fields) = read j := by
  rw [required, field?_entriesOf h hm]
  rfl

/-- A field that was left out has its default. -/
theorem defaulted_entriesOf {key : String} {fields : List (String × Option Json)} {v : Option Json}
    (h : (fields.map Prod.fst).Nodup) (hm : (key, v) ∈ fields) (read : Json → Option α)
    (default : α) : defaulted key read default (entriesOf fields) = v.elim (some default) read := by
  rw [defaulted, field?_entriesOf h hm]
  cases v <;> rfl

/-- An optional field is read back if its value is, whenever there is one. -/
theorem optional_entriesOf {key : String} {fields : List (String × Option Json)}
    (h : (fields.map Prod.fst).Nodup) {write : α → Json} {value : Option α}
    (hm : (key, value.map write) ∈ fields) {read : Json → Option α}
    (inverse : ∀ a ∈ value, write a ≠ .null ∧ read (write a) = some a) :
    defaulted key (optional read) none (entriesOf fields) = some value := by
  rw [defaulted_entriesOf h hm]
  cases value with
  | none => rfl
  | some a =>
    obtain ⟨notNull, back⟩ := inverse a rfl
    simp [optional, back]

theorem occurrences_entriesOf_le (key : String) (fields : List (String × Option Json)) :
    occurrences key (entriesOf fields) ≤ (fields.map Prod.fst).count key := by
  induction fields with
  | nil => simp [entriesOf, occurrences]
  | cons field fields ih =>
    obtain ⟨k, value⟩ := field
    have tail : List.countP (fun entry => entry.1 == some key) (entriesOf fields) ≤
      (fields.map Prod.fst).count key := ih
    by_cases h : k = key
    · cases value <;> simp [entriesOf_cons, occurrences, h] <;> omega
    · cases value <;> simp [entriesOf_cons, occurrences, h] <;> omega

theorem distinct_entriesOf {fields : List (String × Option Json)}
    (h : (fields.map Prod.fst).Nodup) (keys : List String) :
    distinct keys (entriesOf fields) = true := by
  have once : ∀ key, occurrences key (entriesOf fields) ≤ 1 := fun key =>
    Nat.le_trans (occurrences_entriesOf_le key fields) (List.nodup_iff_count_le_one.mp h key)
  have spelled : ∀ entry ∈ entriesOf fields, entry.1.isSome = true := by
    intro entry hm
    obtain ⟨field, _, he⟩ := List.mem_filterMap.mp hm
    obtain ⟨j, _, rfl⟩ := Option.map_eq_some_iff.mp he
    rfl
  simp only [distinct, Bool.and_eq_true, List.all_eq_true, decide_eq_true_eq]
  exact ⟨fun key _ => once key, spelled⟩

end Json

/-! ## Ranges and diagnostics -/

theorem Span.ofJson?_toJson (s : Span) : Span.ofJson? s.toJson = some s := by
  simp [Span.toJson, Span.ofJson?, Json.obj, Json.distinct, Json.occurrences, Json.required]

theorem TypeFault.ofJson?_toJson (f : TypeFault) : TypeFault.ofJson? f.toJson = some f := by
  obtain ⟨found, arity, span⟩ := f
  simp [toJson, ofJson?, notAMapping?, Json.obj, Json.distinct, Json.occurrences, Json.required,
    Span.ofJson?_toJson]

theorem Diagnostic.ofJson?_toJson (d : Diagnostic) : Diagnostic.ofJson? d.toJson = some d := by
  cases d with
  | unresolvedName name span =>
    simp [toJson, ofJson?, unresolvedName?, Json.obj, Json.distinct, Json.occurrences,
      Json.required, Span.ofJson?_toJson]
  | missingChild tag index span =>
    simp [toJson, ofJson?, missingChild?, Json.obj, Json.distinct, Json.occurrences,
      Json.required, Span.ofJson?_toJson]
  | typeFault fault =>
    simp [toJson, ofJson?, Json.obj, TypeFault.ofJson?_toJson]

theorem Diagnostic.toJson_ne_null (d : Diagnostic) : d.toJson ≠ .null := by
  cases d <;> nofun

/-! ## Types -/

namespace Ty

theorem decodeListAt?_eq (key : String) (entries : Json.Entries) :
    decodeListAt? key entries =
      Json.required key (fun j => j.array?.bind decodeList?) entries := by
  induction entries with
  | nil => rfl
  | cons entry entries ih =>
    obtain ⟨k, j⟩ := entry
    by_cases h : k = some key
    · cases j <;> simp [decodeListAt?, Json.required, Json.array?, h]
    · cases j <;> simpa [decodeListAt?, Json.required, h] using ih

theorem decodeReturns?_eq (entries : Json.Entries) :
    decodeReturns? entries = Json.defaulted "returns" (Json.optional decode?) none entries := by
  induction entries with
  | nil => rfl
  | cons entry entries ih =>
    obtain ⟨k, j⟩ := entry
    by_cases h : k = some "returns"
    · cases j <;> simp [decodeReturns?, Json.defaulted, Json.optional, h]
    · cases j <;> simpa [decodeReturns?, Json.defaulted, h] using ih

theorem optional_toJson (t : Ty) :
    Json.optional decode? t.toJson = (decode? t.toJson).map some := by
  cases t with
  | function params returns => cases returns <;> rfl
  | _ => rfl

mutual

theorem decode?_toJson : (t : Ty) → t.Readable → decode? t.toJson = some t
  | unknown, _ => rfl
  | named s, h => congrArg some (ofName_eq_named h)
  | list items, h => by
    simp [toJson, decode?, decodeList?_listToJson items (readable_list.mp h)]
  | function params none, h => by
    have hp := decodeList?_listToJson params (readable_function.mp h).1
    simp [toJson, decode?, functionOf?, decodeListAt?_eq, decodeReturns?_eq, Json.obj,
      Json.distinct, Json.occurrences, Json.required, Json.defaulted, Json.array?, hp]
  | function params (some returns), h => by
    have hp := decodeList?_listToJson params (readable_function.mp h).1
    have hr := decode?_toJson returns ((readable_function.mp h).2 returns rfl)
    simp [toJson, decode?, functionOf?, decodeListAt?_eq, decodeReturns?_eq, Json.obj,
      Json.distinct, Json.occurrences, Json.required, Json.defaulted,
      Json.array?, optional_toJson, hp, hr]
  | struct name fields, h => by
    have hf := decodeList?_listToJson fields (readable_struct.mp h)
    simp [toJson, decode?, functionOf?, structOf?, decodeListAt?_eq, Json.obj, Json.distinct,
      Json.occurrences, Json.required, Json.array?, hf]

theorem decodeList?_listToJson : (ts : List Ty) → (∀ t ∈ ts, t.Readable) →
    decodeList? (listToJson ts) = some ts
  | [], _ => rfl
  | t :: ts, h => by
    have head := decode?_toJson t (h t List.mem_cons_self)
    have tail := decodeList?_listToJson ts fun u hu => h u (List.mem_cons_of_mem _ hu)
    simp [listToJson, decodeList?, head, tail]

end

mutual

theorem isFaithful_toJson : (t : Ty) → t.toJson.isFaithful = true
  | unknown | named _ => rfl
  | list items => by
    simp [toJson, Json.isFaithful, areFaithful_listToJson items]
  | function params none => by
    simp [toJson, Json.obj, Json.isFaithful, Json.entriesFaithful, areFaithful_listToJson params]
  | function params (some returns) => by
    simp [toJson, Json.obj, Json.isFaithful, Json.entriesFaithful, areFaithful_listToJson params,
      isFaithful_toJson returns]
  | struct name fields => by
    simp [toJson, Json.obj, Json.str, Json.isFaithful, Json.entriesFaithful,
      areFaithful_listToJson fields]

theorem areFaithful_listToJson : (ts : List Ty) → Json.areFaithful (listToJson ts) = true
  | [] => rfl
  | t :: ts => by
    simp [listToJson, Json.areFaithful, isFaithful_toJson t, areFaithful_listToJson ts]

end

theorem toJson_ne_null (t : Ty) : t.toJson ≠ .null := by
  cases t with
  | function params returns => cases returns <;> nofun
  | _ => nofun

theorem ofJson?_toJson {t : Ty} (h : t.Readable) : ofJson? t.toJson = some t := by
  rw [ofJson?, if_pos t.isFaithful_toJson, decode?_toJson t h]

theorem eq_function_of_functionOf? {entries : Json.Entries} {params : Option (List Ty)}
    {returns : Option (Option Ty)} {t : Ty} (h : functionOf? entries params returns = some t) :
    ∃ ps r, params = some ps ∧ returns = some r ∧ t = function ps r := by
  unfold functionOf? at h
  split at h
  · simp only [Option.bind_eq_bind, Option.bind_eq_some_iff] at h
    obtain ⟨ps, hp, r, hr, e⟩ := h
    exact ⟨ps, r, hp, hr, (Option.some.inj e).symm⟩
  · cases h

theorem eq_struct_of_structOf? {entries : Json.Entries} {fields : Option (List Ty)} {t : Ty}
    (h : structOf? entries fields = some t) : ∃ name fs, fields = some fs ∧ t = struct name fs := by
  unfold structOf? at h
  split at h
  · simp only [Option.bind_eq_bind, Option.bind_eq_some_iff] at h
    obtain ⟨name, _, fs, hfs, e⟩ := h
    exact ⟨name, fs, hfs, (Option.some.inj e).symm⟩
  · cases h

mutual

theorem readable_of_decode? : {j : Json} → {t : Ty} → decode? j = some t → t.Readable
  | .string (some s), t, h => by
    cases h
    exact readable_ofName s
  | .array items, t, h => by
    obtain ⟨ts, hts, rfl⟩ := Option.map_eq_some_iff.mp h
    exact readable_list.mpr (readable_of_decodeList? hts)
  | .object entries, t, h => by
    simp only [decode?, Option.orElse_eq_orElse, Option.orElse_eq_or, Option.or_eq_some_iff] at h
    rcases h with h | ⟨_, h⟩
    · obtain ⟨ps, r, hp, hr, rfl⟩ := eq_function_of_functionOf? h
      exact readable_function.mpr ⟨readable_of_decodeListAt? hp, readable_of_decodeReturns? hr⟩
    · obtain ⟨name, fs, hf, rfl⟩ := eq_struct_of_structOf? h
      exact readable_struct.mpr (readable_of_decodeListAt? hf)
  | .null, _, h | .bool _, _, h | .number _, _, h | .string none, _, h => by cases h

theorem readable_of_decodeList? : {js : List Json} → {ts : List Ty} → decodeList? js = some ts →
    ∀ t ∈ ts, t.Readable
  | [], ts, h => by
    cases h
    simp
  | j :: js, ts, h => by
    simp only [decodeList?, Option.bind_eq_bind, Option.bind_eq_some_iff] at h
    obtain ⟨u, hu, us, hus, e⟩ := h
    cases e
    exact List.forall_mem_cons.mpr ⟨readable_of_decode? hu, readable_of_decodeList? hus⟩

theorem readable_of_decodeListAt? {key : String} : {entries : Json.Entries} → {ts : List Ty} →
    decodeListAt? key entries = some ts → ∀ t ∈ ts, t.Readable
  | [], ts, h => by cases h
  | (k, j) :: rest, ts, h => by
    by_cases hk : k = some key
    · cases j <;> simp only [decodeListAt?, hk, if_true, reduceCtorEq] at h
      exact readable_of_decodeList? h
    · cases j <;> simp only [decodeListAt?, hk, if_false] at h <;>
        exact readable_of_decodeListAt? h

theorem readable_of_decodeReturns? : {entries : Json.Entries} → {r : Option Ty} →
    decodeReturns? entries = some r → ∀ t ∈ r, t.Readable
  | [], r, h => by
    cases h
    simp
  | (k, j) :: rest, r, h => by
    by_cases hk : k = some "returns"
    · cases j <;> simp only [decodeReturns?, hk, if_true, Option.map_eq_some_iff] at h
      case null =>
        cases h
        simp
      all_goals
        obtain ⟨u, hu, rfl⟩ := h
        intro t ht
        cases ht
        exact readable_of_decode? hu
    · cases j <;> simp only [decodeReturns?, hk, if_false] at h <;>
        exact readable_of_decodeReturns? h

end

theorem readable_of_ofJson? {j : Json} {t : Ty} (h : ofJson? j = some t) : t.Readable := by
  unfold ofJson? at h
  split at h
  · exact readable_of_decode? h
  · cases h

end Ty

/-! ## Trees -/

namespace Node

/-- Every kind is canonical and every type is readable. -/
def Writable (n : Node) : Prop := n.All fun m => m.tag.Canonical ∧ ∀ ty ∈ m.ty, ty.Readable

instance (n : Node) : Decidable n.Writable := inferInstanceAs (Decidable (n.All _))

theorem childrenOf?_eq (entries : Json.Entries) :
    childrenOf? entries =
      Json.defaulted "children" (fun j => j.array?.bind listOf?) [] entries := by
  induction entries with
  | nil => rfl
  | cons entry entries ih =>
    obtain ⟨k, j⟩ := entry
    by_cases h : k = some "children"
    · cases j <;> simp [childrenOf?, Json.defaulted, Json.array?, h]
    · cases j <;> simpa [childrenOf?, Json.defaulted, h] using ih

/-- The fields of a node as they are written. What has its default is left out. -/
def wireFields (n : Node) : List (String × Option Json) :=
  [("tag", some (.str n.tag.name)),
   ("children", if n.children.isEmpty then none else some (.array (listToJson n.children))),
   ("payload", n.payload.map .str),
   ("type", n.ty.map Ty.toJson),
   ("context", n.context.map .str),
   ("error", n.error.map Diagnostic.toJson),
   ("done", if n.done then some (.bool true) else none),
   ("span", if n.span.isDummy then none else some n.span.toJson)]

theorem wireFields_nodup (n : Node) : (n.wireFields.map Prod.fst).Nodup := by
  simp [wireFields]

theorem toJson_eq (n : Node) : n.toJson = .object (Json.entriesOf n.wireFields) := by
  obtain ⟨tag, children, payload, ty, context, error, done, span⟩ := n
  have optional : ∀ {α : Type} (key : String) (write : α → Json) (value : Option α),
      ((value.map write).toList.map fun j => ((some key : Spelling), j)) =
        (entryOf key write value).map fun entry => (some entry.1, entry.2) := by
    intro α key write value
    cases value <;> rfl
  simp only [toJson, wireFields, Json.obj_eq, Json.entriesOf_cons, optional, List.map_append,
    List.append_assoc]
  cases children <;> cases done <;> by_cases dummy : span.isDummy <;>
    simp [dummy, Json.entriesOf]

/-- All fields are read back if the children are. -/
theorem ofJson?_toJson_of_children {n : Node} (tag : n.tag.Canonical)
    (types : ∀ ty ∈ n.ty, ty.Readable)
    (children : listOf? (listToJson n.children) = some n.children) :
    ofJson? n.toJson = some n := by
  have once := n.wireFields_nodup
  have readTag : Json.required "tag" tag? (Json.entriesOf n.wireFields) = some n.tag := by
    rw [Json.required_entriesOf (j := .str n.tag.name) once (by simp [wireFields])]
    simp [tag?, Tag.ofName_name_of_canonical tag]
  have readChildren : childrenOf? (Json.entriesOf n.wireFields) = some n.children := by
    rw [childrenOf?_eq, Json.defaulted_entriesOf
      (v := if n.children.isEmpty then none else some (.array (listToJson n.children))) once
      (by simp [wireFields])]
    by_cases empty : n.children = []
    · simp [empty]
    · simpa [empty, Json.array?] using children
  have readPayload : Json.defaulted "payload" (Json.optional Json.string?) none
      (Json.entriesOf n.wireFields) = some n.payload := by
    have written : ("payload", n.payload.map Json.str) ∈ n.wireFields := by simp [wireFields]
    exact Json.optional_entriesOf once written fun s _ => ⟨nofun, rfl⟩
  have readType : Json.defaulted "type" (Json.optional Ty.ofJson?) none
      (Json.entriesOf n.wireFields) = some n.ty := by
    have written : ("type", n.ty.map Ty.toJson) ∈ n.wireFields := by simp [wireFields]
    exact Json.optional_entriesOf once written fun t ht =>
      ⟨t.toJson_ne_null, Ty.ofJson?_toJson (types t ht)⟩
  have readContext : Json.defaulted "context" (Json.optional Json.string?) none
      (Json.entriesOf n.wireFields) = some n.context := by
    have written : ("context", n.context.map Json.str) ∈ n.wireFields := by simp [wireFields]
    exact Json.optional_entriesOf once written fun s _ => ⟨nofun, rfl⟩
  have readError : Json.defaulted "error" (Json.optional Diagnostic.ofJson?) none
      (Json.entriesOf n.wireFields) = some n.error := by
    have written : ("error", n.error.map Diagnostic.toJson) ∈ n.wireFields := by simp [wireFields]
    exact Json.optional_entriesOf once written fun d _ =>
      ⟨d.toJson_ne_null, d.ofJson?_toJson⟩
  have readDone : Json.defaulted "done" Json.bool? false (Json.entriesOf n.wireFields) =
      some n.done := by
    rw [Json.defaulted_entriesOf (v := if n.done then some (.bool true) else none) once
      (by simp [wireFields])]
    cases n.done <;> rfl
  have readSpan : Json.defaulted "span" Span.ofJson? {} (Json.entriesOf n.wireFields) =
      some n.span := by
    rw [Json.defaulted_entriesOf (v := if n.span.isDummy then none else some n.span.toJson) once
      (by simp [wireFields])]
    by_cases dummy : n.span.isDummy = true
    · have same := (Span.isDummy_iff n.span).mp dummy
      rw [if_pos dummy, same]
      rfl
    · simp [dummy, Span.ofJson?_toJson]
  rw [toJson_eq, ofJson?, ofEntries?, if_pos (Json.distinct_entriesOf once keys), readTag,
    readChildren, readPayload, readType, readContext, readError, readDone, readSpan]
  cases n
  rfl

theorem listOf?_listToJson {ns : List Node} (h : ∀ n ∈ ns, ofJson? n.toJson = some n) :
    listOf? (listToJson ns) = some ns := by
  induction ns with
  | nil => rfl
  | cons n ns ih =>
    have head := h n List.mem_cons_self
    have tail := ih fun m hm => h m (List.mem_cons_of_mem _ hm)
    simp [listToJson, listOf?, head, tail]

/-- What is written is read back. -/
theorem ofJson?_toJson (n : Node) (h : n.Writable) : ofJson? n.toJson = some n := by
  induction n using induction_on_children with
  | step n ih =>
    obtain ⟨tag, types⟩ := h.self
    refine ofJson?_toJson_of_children tag types (listOf?_listToJson ?_)
    exact fun c hc => ih c hc (h.child hc)

theorem canonical_of_required {entries : Json.Entries} {t : Tag}
    (h : Json.required "tag" tag? entries = some t) : t.Canonical := by
  obtain ⟨j, _, hj⟩ := Option.bind_eq_some_iff.mp h
  obtain ⟨s, _, rfl⟩ := Option.map_eq_some_iff.mp hj
  exact Tag.canonical_ofName s

theorem readable_of_defaulted {entries : Json.Entries} {ty : Option Ty}
    (h : Json.defaulted "type" (Json.optional Ty.ofJson?) none entries = some ty) :
    ∀ t ∈ ty, t.Readable := by
  intro t ht
  cases ht
  unfold Json.defaulted at h
  split at h
  · rename_i j _
    unfold Json.optional at h
    split at h
    · cases h
    · obtain ⟨u, hu, e⟩ := Option.map_eq_some_iff.mp h
      cases e
      exact Ty.readable_of_ofJson? hu
  · cases h

theorem of_ofEntries? {entries : Json.Entries} {children : Option (List Node)} {n : Node}
    (h : ofEntries? entries children = some n) :
    children = some n.children ∧ n.tag.Canonical ∧ ∀ ty ∈ n.ty, ty.Readable := by
  unfold ofEntries? at h
  split at h
  · simp only [Option.bind_eq_bind, Option.bind_eq_some_iff] at h
    obtain ⟨tag, htag, children, rfl, payload, _, ty, hty, context, _, error, _, done, _, span, _,
      e⟩ := h
    cases e
    refine ⟨rfl, canonical_of_required htag, readable_of_defaulted hty⟩
  · cases h

mutual

theorem writable_of_ofJson? : {j : Json} → {n : Node} → ofJson? j = some n → n.Writable
  | .object entries, n, h => by
    obtain ⟨children, tag, types⟩ := of_ofEntries? h
    exact all_iff.mpr ⟨⟨tag, types⟩, writable_of_childrenOf? children⟩
  | .array items, n, h => by
    rw [ofJson?] at h
    split at h
    · obtain ⟨children, tag, types⟩ := of_ofEntries? h
      exact all_iff.mpr ⟨⟨tag, types⟩, writable_of_secondOf? children⟩
    · cases h
  | .null, _, h | .bool _, _, h | .number _, _, h | .string _, _, h => by cases h

theorem writable_of_listOf? : {js : List Json} → {ns : List Node} → listOf? js = some ns →
    ∀ n ∈ ns, n.Writable
  | [], ns, h => by
    cases h
    simp
  | j :: js, ns, h => by
    simp only [listOf?, Option.bind_eq_bind, Option.bind_eq_some_iff] at h
    obtain ⟨m, hm, ms, hms, e⟩ := h
    cases e
    exact List.forall_mem_cons.mpr ⟨writable_of_ofJson? hm, writable_of_listOf? hms⟩

theorem writable_of_childrenOf? : {entries : Json.Entries} → {ns : List Node} →
    childrenOf? entries = some ns → ∀ n ∈ ns, n.Writable
  | [], ns, h => by
    cases h
    simp
  | (k, j) :: rest, ns, h => by
    by_cases hk : k = some "children"
    · cases j <;> simp only [childrenOf?, hk, if_true, reduceCtorEq] at h
      exact writable_of_listOf? h
    · cases j <;> simp only [childrenOf?, hk, if_false] at h <;>
        exact writable_of_childrenOf? h

theorem writable_of_secondOf? : {items : List Json} → {ns : List Node} →
    secondOf? items = some ns → ∀ n ∈ ns, n.Writable
  | _ :: .array items :: _, ns, h => writable_of_listOf? h
  | [_], ns, h => by
    cases h
    simp
  | [], _, h => by cases h
  | _ :: .null :: _, _, h | _ :: .bool _ :: _, _, h | _ :: .number _ :: _, _, h
  | _ :: .string _ :: _, _, h | _ :: .object _ :: _, _, h => by cases h

end

/-- **The JSON form.** A tree with canonical kinds and readable types is read back as it was
written. Every tree that is read is such a tree, so writing it and reading it again changes
nothing. -/
theorem codec_exact :
    (∀ n : Node, n.Writable → ofJson? n.toJson = some n) ∧
    ∀ (j : Json) (n : Node), ofJson? j = some n → n.Writable ∧ ofJson? n.toJson = some n := by
  constructor
  · exact ofJson?_toJson
  · intro j n h
    have writable := writable_of_ofJson? h
    exact ⟨writable, ofJson?_toJson n writable⟩

/-- A node with a value in every field. -/
def letter : Node :=
  { tag := .other "Letter"
    children := [
      { tag := .fdParam, ty := some (.function [.unknown, .list [.bool]] (some .unknown)),
        done := true },
      (leaf .text "").fail (.typeFault (.notAMapping "bool" 2 ⟨4, 2⟩))]
    payload := some "a"
    ty := some (.struct "\x7bunknown\x7d" [.function [] none])
    context := some "user"
    error := some (.missingChild "Pair" 2 ⟨0, 7⟩)
    span := ⟨1, 9⟩ }

/-- The same name may be that of a structure, and the array form is read as well. -/
theorem codec_exact_letter :
    letter.Writable ∧ ofJson? letter.toJson = some letter ∧
    (ofJson? (.array [.str "Pair", .array [.array [.str "Text"]], .null, .str "\x7bunknown\x7d"]) =
      some { tag := .pair, children := [{ tag := .text }], ty := some .unknown }) ∧
    Writable { tag := .pair, children := [{ tag := .text }], ty := some .unknown } := by
  have writable : letter.Writable := by decide
  have read : ofJson? (.array [.str "Pair", .array [.array [.str "Text"]], .null,
      .str "\x7bunknown\x7d"]) =
      some { tag := .pair, children := [{ tag := .text }], ty := some .unknown } := by rfl
  exact ⟨writable, codec_exact.1 letter writable, read, (codec_exact.2 _ _ read).1⟩

end Node

end ContractTyping
