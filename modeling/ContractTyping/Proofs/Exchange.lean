import ContractTyping.Config.Reader
import ContractTyping.Proofs.Vocabulary
import ContractTyping.Proofs.WireForm

/-!
Trees that are exchanged. A tree that was read and checked is written and read again on the other
side. The pass takes care not to write a type that reads as another: names that stand for themselves
never spell the unresolved type, but for names that a literal spells. Main statements:
`Config.readable_of_ofEntries`, settings that were read have readable types; and
`Engine.writable_checkUnit`, what comes back can be written if the types that literals name can.
-/

namespace ContractTyping

/-! ## Settings -/

namespace Config

/-- The types of the prelude are readable. -/
def Readable (c : Config) : Prop := ∀ b ∈ c.prelude, b.2.Readable

theorem readable_of_bindingsOf? {entries : Json.Entries} {bindings : List (String × Ty)}
    (h : bindingsOf? entries = some bindings) : ∀ b ∈ bindings, b.2.Readable := by
  induction entries generalizing bindings with
  | nil =>
    cases h
    simp
  | cons entry entries ih =>
    obtain ⟨key, j⟩ := entry
    simp only [bindingsOf?, Option.bind_eq_bind, Option.bind_eq_some_iff] at h
    obtain ⟨name, _, ty, hty, rest, hrest, e⟩ := h
    cases e
    exact List.forall_mem_cons.mpr ⟨Ty.readable_of_ofJson? hty, ih hrest⟩

theorem readable_of_preludeOf? {v : Toml.Value} {bindings : List (String × Ty)}
    (h : preludeOf? v = some bindings) : ∀ b ∈ bindings, b.2.Readable := by
  unfold preludeOf? at h
  split at h
  · exact readable_of_bindingsOf? h
  · cases h

/-- Only one setting changes the prelude. -/
theorem Readable.change {key : String} {change : Config → Toml.Value → Option Config}
    (hkey : settingOf? key = some change) {c c' : Config} {v : Toml.Value}
    (h : change c v = some c') (hc : c.Readable) : c'.Readable := by
  unfold settingOf? at hkey
  split at hkey
  case h_6 =>
    cases hkey
    obtain ⟨bindings, hbindings, rfl⟩ := Option.map_eq_some_iff.mp h
    exact readable_of_preludeOf? hbindings
  case h_7 => cases hkey
  all_goals
    cases hkey
    obtain ⟨value, -, rfl⟩ := Option.map_eq_some_iff.mp h
    exact hc

theorem readable_of_ofEntries {entries : List (String × Toml.Value)} {c c' : Config}
    (h : (ofEntries c entries).result = .ok c') (hc : c.Readable) : c'.Readable := by
  induction entries generalizing c with
  | nil =>
    cases h
    exact hc
  | cons entry entries ih =>
    obtain ⟨key, v⟩ := entry
    unfold ofEntries at h
    split at h
    · exact ih h hc
    · rename_i change hkey
      split at h
      · rename_i changed hchange
        exact ih h (hc.change hkey hchange)
      · cases h

/-- Settings that are read from a text are read from the entries of a document. -/
theorem entries_of_ofText {text : String} {c : Config} (h : (ofText text).result = .ok c) :
    ∃ entries, Toml.read? text = some entries ∧ (ofEntries {} entries).result = .ok c := by
  unfold ofText at h
  split at h
  · rename_i entries document
    exact ⟨entries, document, h⟩
  · cases h

end Config

/-! ## What comes back -/

/-- The type that a literal names, when an assumption is bound to it. -/
def Event.assumedType? : Event → Option Ty
  | .boundAssumption _ ty => some ty
  | _ => none

/-- Canonical kinds and readable types, given that literals name readable types. -/
def Vocabulary.readable : Vocabulary where
  kind := Tag.Canonical
  name s := s ≠ Ty.unknownName
  admits event := ∀ ty ∈ event.assumedType?, ty.Readable
  known _ h := .inl h
  void := by decide
  bool := by decide
  int256 := by decide
  literal _ _ h _ hs spells := h _ rfl (spells ▸ hs)

theorem Ty.within_readable_iff {t : Ty} : t.Within .readable ↔ t.Readable := by
  constructor
  · intro h spelled
    exact h _ spelled rfl
  · intro h s hs spells
    exact h (spells ▸ hs)

theorem Node.within_readable_iff {n : Node} : n.Within .readable ↔ n.Writable := by
  simp only [Node.Within, Node.Writable, Ty.within_readable_iff]
  exact Iff.rfl

namespace Engine

theorem writable_checkUnit {config : Config} {tree : Node} (prelude : config.Readable)
    (writable : tree.Writable)
    (literals : ∀ event ∈ (checkUnit { config } tree).log,
      ∀ ty ∈ event.assumedType?, ty.Readable) :
    (checkUnit { config } tree).value.Writable := by
  have scope : ∀ b ∈ config.prelude, b.2.Within .readable :=
    fun b hb => Ty.within_readable_iff.mpr (prelude b hb)
  have words := Node.within_readable_iff.mpr writable
  exact Node.within_readable_iff.mp (speaks_checkUnit scope words literals).1

/-- **Checked trees survive the exchange.** A tree that was read, checked under settings that were
read from the entries of a document or are the default, comes back equal when it is written and read
again, if no assumption of the log is bound to a type in which the name of the unresolved type is
spelled. -/
theorem checkUnit_survives_json (config : Config) (j : Json) (tree : Node)
    (settings : config = {} ∨ ∃ entries, (Config.ofEntries {} entries).result = .ok config)
    (read : Node.ofJson? j = some tree)
    (literals : ∀ event ∈ (checkUnit { config } tree).log,
      ∀ ty ∈ event.assumedType?, ty.Readable) :
    Node.ofJson? (checkUnit { config } tree).value.toJson =
      some (checkUnit { config } tree).value := by
  have prelude : config.Readable := by
    have start : Config.Readable {} := List.forall_mem_nil _
    rcases settings with rfl | ⟨entries, h⟩
    · exact start
    · exact Config.readable_of_ofEntries h start
  exact Node.ofJson?_toJson _ (writable_checkUnit prelude (Node.writable_of_ofJson? read) literals)

/-- A name with an unresolved type from the prelude, and a name that an assumption binds. -/
def parcel : Node :=
  { tag := .source
    children := [
      .leaf .raw "y",
      { tag := .pair, children := [.leaf .text "a", .leaf .nameExpr "x"] },
      { tag := .assumeDecls
        children := [
          { tag := .assumeDecl, children := [.leaf .nameExpr "x", .leaf .text "uint"] }] }] }

/-- Settings whose prelude leaves a type unresolved. -/
def parcelSettings : Config := { prelude := [("y", .unknown)] }

theorem checkUnit_survives_json_parcel :
    (Config.ofText "[prelude]\ny = \"\x7bunknown\x7d\"").result = .ok parcelSettings ∧
      Node.ofJson? parcel.toJson = some parcel ∧
      (∀ event ∈ (checkUnit { config := parcelSettings } parcel).log,
        ∀ ty ∈ event.assumedType?, ty.Readable) ∧
      Node.ofJson? (checkUnit { config := parcelSettings } parcel).value.toJson =
        some (checkUnit { config := parcelSettings } parcel).value := by
  have settings : (Config.ofText "[prelude]\ny = \"\x7bunknown\x7d\"").result =
      .ok parcelSettings := by decide +kernel
  have read : Node.ofJson? parcel.toJson = some parcel := by decide +kernel
  have literals : ∀ event ∈ (checkUnit { config := parcelSettings } parcel).log,
      ∀ ty ∈ event.assumedType?, ty.Readable := by decide +kernel
  obtain ⟨entries, -, applied⟩ := Config.entries_of_ofText settings
  exact ⟨settings, read, literals, checkUnit_survives_json parcelSettings parcel.toJson parcel
    (.inr ⟨entries, applied⟩) read literals⟩

/-- A name bound to the literal that spells the unresolved type. -/
def reservedLiteral : Node :=
  { tag := .source
    children := [
      .leaf .raw "x",
      { tag := .assumeDecls
        children := [
          { tag := .assumeDecl
            children := [.leaf .nameExpr "x", .leaf .text "\x7bunknown\x7d"] }] }] }

/-- The name of the type is read as that of the unresolved type, which it is not. -/
theorem reservedLiteral_misread :
    Node.ofJson? reservedLiteral.toJson = some reservedLiteral ∧
      ∃ back, Node.ofJson? (checkUnit {} reservedLiteral).value.toJson = some back ∧
        back ≠ (checkUnit {} reservedLiteral).value :=
  ⟨by decide +kernel, _, rfl, by decide⟩

end Engine

end ContractTyping
