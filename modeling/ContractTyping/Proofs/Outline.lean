import ContractTyping.Node.Printer
import ContractTyping.Proofs.ImportNames
import ContractTyping.Proofs.Tree

/-!
What the bracketed text of a tree tells of the tree. Quoted text ends by itself, since no escape
begins another and none begins with a quote; so does the text of a node, whatever its payload looks
like, if the name of a kind can be told from what stands behind it. Main statements:
`Quoted.encode_append_inj`, two quoted texts that begin one text are the same; and
`Node.render_eq_iff_sameOutline`, two trees have the same text exactly if they have the same
outline.
-/

namespace ContractTyping

/-- A run of characters is told from what follows if the next character is the first that stops
it. -/
theorem append_inj_of_stop {stop : Char → Prop} {a b x y : List Char} (ha : ∀ c ∈ a, ¬ stop c)
    (hb : ∀ c ∈ b, ¬ stop c) (hx : ∃ c ∈ x.head?, stop c) (hy : ∃ c ∈ y.head?, stop c)
    (h : a ++ x = b ++ y) : a = b ∧ x = y := by
  induction a generalizing b with
  | nil =>
    cases b with
    | nil => exact ⟨rfl, h⟩
    | cons d b =>
      obtain ⟨c, first, stops⟩ := hx
      simp only [List.nil_append] at h
      simp only [h, List.cons_append, List.head?_cons, Option.mem_some_iff] at first
      exact absurd stops (hb c (first ▸ List.mem_cons_self))
  | cons d a ih =>
    cases b with
    | nil =>
      obtain ⟨c, first, stops⟩ := hy
      simp only [List.nil_append] at h
      simp only [← h, List.cons_append, List.head?_cons, Option.mem_some_iff] at first
      exact absurd stops (ha c (first ▸ List.mem_cons_self))
    | cons e b =>
      obtain ⟨same, rest⟩ := List.cons.inj h
      obtain ⟨others, tail⟩ := ih (fun c hc => ha c (List.mem_cons_of_mem _ hc))
        (fun c hc => hb c (List.mem_cons_of_mem _ hc)) rest
      exact ⟨by rw [same, others], tail⟩

/-! ## Code points -/

namespace Hex

theorem value?_digitChar {d : Nat} (h : d < 16) : value? d.digitChar = some d := by
  revert h d
  decide

theorem number?_concat (cs : List Char) (c : Char) :
    number? (cs ++ [c]) = (number? cs).bind fun n => (value? c).map (16 * n + ·) := by
  simp [number?, List.foldlM_append]

/-- A number is read back from its digits. -/
theorem number?_toDigits (n : Nat) : number? (Nat.toDigits 16 n) = some n := by
  induction n using Nat.strongRecOn with
  | ind n ih =>
    rw [Nat.toDigits_eq_if (by decide)]
    by_cases small : n < 16
    · rw [if_pos small]
      simp [number?, value?_digitChar small]
    · have leading : number? (Nat.toDigits 16 (n / 16)) = some (n / 16) := ih (n / 16) (by omega)
      have last : value? (n % 16).digitChar = some (n % 16) :=
        value?_digitChar (Nat.mod_lt n (by decide))
      have whole : 16 * (n / 16) + n % 16 = n := by omega
      rw [if_neg small, number?_concat, leading, last, Option.bind_some, Option.map_some, whole]

theorem toDigits_inj {m n : Nat} (h : Nat.toDigits 16 m = Nat.toDigits 16 n) : m = n := by
  have read := congrArg number? h
  rw [number?_toDigits, number?_toDigits] at read
  exact Option.some.inj read

theorem isDigit_of_mem_toDigits {n : Nat} {c : Char} (h : c ∈ Nat.toDigits 16 n) : IsDigit c :=
  (number?_eq_some_iff.mp (number?_toDigits n)).1 c h

end Hex

/-! ## Quoted text -/

namespace Quoted

/-- The short escapes: what stands behind the backslash, and the character meant. -/
def shorthands : List (Char × Char) :=
  [('"', '"'), ('\\', '\\'), ('n', '\n'), ('r', '\r'), ('t', '\t'), ('0', '\x00')]

/-- The ways to write a character between quotes. -/
inductive Written : Char → List Char → Prop
  | plain {c : Char} (quote : c ≠ '"') (backslash : c ≠ '\\') : Written c [c]
  | short {mark c : Char} (listed : (mark, c) ∈ shorthands) : Written c ['\\', mark]
  | codePoint (c : Char) :
      Written c ('\\' :: 'u' :: '\x7b' :: (Nat.toDigits 16 c.toNat ++ ['\x7d']))

theorem written_escape (c : Char) : Written c (escape c) := by
  unfold escape
  split_ifs with quote backslash newline carriageReturn tab null printable
  · exact .short (by simp [shorthands, quote])
  · exact .short (by simp [shorthands, backslash])
  · exact .short (by simp [shorthands, newline])
  · exact .short (by simp [shorthands, carriageReturn])
  · exact .short (by simp [shorthands, tab])
  · exact .short (by simp [shorthands, null])
  · exact .plain quote backslash
  · exact .codePoint c

/-- A short escape means one character. -/
theorem shorthands_functional :
    ∀ p ∈ shorthands, ∀ q ∈ shorthands, p.1 = q.1 → p.2 = q.2 := by
  decide

/-- The mark of a code point is none of the short escapes. -/
theorem mark_ne_u : ∀ p ∈ shorthands, p.1 ≠ 'u' := by
  decide

theorem Written.head?_ne_quote {c : Char} {xs : List Char} (h : Written c xs) (r : List Char) :
    (xs ++ r).head? ≠ some '"' := by
  cases h with
  | plain quote => simpa using quote
  | short => simp
  | codePoint => simp

theorem codePoint_append_inj {m n : Nat} {r s : List Char}
    (h : Nat.toDigits 16 m ++ '\x7d' :: r = Nat.toDigits 16 n ++ '\x7d' :: s) : m = n ∧ r = s := by
  have unstopped (k : Nat) : ∀ c ∈ Nat.toDigits 16 k, ¬ c = '\x7d' := by
    rintro c hc rfl
    exact absurd (Hex.isDigit_of_mem_toDigits hc) (by decide)
  obtain ⟨digits, rest⟩ :=
    append_inj_of_stop (unstopped m) (unstopped n) ⟨_, rfl, rfl⟩ ⟨_, rfl, rfl⟩ h
  exact ⟨Hex.toDigits_inj digits, (List.cons.inj rest).2⟩

/-- No way to write a character begins another, be it of the same or of another character. -/
theorem Written.append_inj {c d : Char} {xs ys r s : List Char} (hc : Written c xs)
    (hd : Written d ys) (h : xs ++ r = ys ++ s) : c = d ∧ r = s := by
  -- The first character tells an escape, the second one which of the escapes.
  cases hc with
  | plain _ backslash =>
    cases hd with
    | plain => exact List.cons.inj h
    | short => exact absurd (List.cons.inj h).1 backslash
    | codePoint => exact absurd (List.cons.inj h).1 backslash
  | short listed =>
    cases hd with
    | plain _ backslash => exact absurd (List.cons.inj h).1.symm backslash
    | short listed' =>
      obtain ⟨mark, rest⟩ := List.cons.inj (List.cons.inj h).2
      exact ⟨shorthands_functional _ listed _ listed' mark, rest⟩
    | codePoint => exact absurd (List.cons.inj (List.cons.inj h).2).1 (mark_ne_u _ listed)
  | codePoint =>
    cases hd with
    | plain _ backslash => exact absurd (List.cons.inj h).1.symm backslash
    | short listed => exact absurd (List.cons.inj (List.cons.inj h).2).1.symm (mark_ne_u _ listed)
    | codePoint =>
      simp only [List.cons_append, List.append_assoc, List.cons.injEq, true_and,
        List.nil_append] at h
      obtain ⟨point, rest⟩ := codePoint_append_inj h
      exact ⟨Char.toNat_inj.mp point, rest⟩

/-- Escaped text goes on up to the first quote that is not part of an escape. -/
theorem flatMap_escape_append_inj {a b r s : List Char}
    (h : a.flatMap escape ++ '"' :: r = b.flatMap escape ++ '"' :: s) : a = b ∧ r = s := by
  induction a generalizing b with
  | nil =>
    cases b with
    | nil => exact ⟨rfl, (List.cons.inj h).2⟩
    | cons d b =>
      rw [List.flatMap_cons, List.append_assoc] at h
      exact absurd (congrArg List.head? h).symm ((written_escape d).head?_ne_quote _)
  | cons c a ih =>
    rw [List.flatMap_cons, List.append_assoc] at h
    cases b with
    | nil => exact absurd (congrArg List.head? h) ((written_escape c).head?_ne_quote _)
    | cons d b =>
      rw [List.flatMap_cons, List.append_assoc] at h
      obtain ⟨same, rest⟩ := (written_escape c).append_inj (written_escape d) h
      obtain ⟨others, tail⟩ := ih rest
      exact ⟨by rw [same, others], tail⟩

theorem encode_append_inj {a b r s : List Char} (h : encode a ++ r = encode b ++ s) :
    a = b ∧ r = s := by
  simp only [encode, List.cons_append, List.append_assoc, List.nil_append, List.cons.injEq,
    true_and] at h
  exact flatMap_escape_append_inj h

end Quoted

namespace Node

/-! ## Outlines -/

/-- What the text of a tree shows of one node. -/
structure Heading where
  kind : String
  payload : Option String
  count : Nat
  deriving DecidableEq

def heading (n : Node) : Heading := ⟨n.tag.name, n.payload, n.children.length⟩

/-- Two trees have nodes at the same positions, and at each of them the name of the kind, the
payload and the number of children are the same. -/
def SameOutline (m n : Node) : Prop :=
  ∀ path, (m.descendant? path).map heading = (n.descendant? path).map heading

theorem SameOutline.heading {m n : Node} (h : m.SameOutline n) : m.heading = n.heading :=
  Option.some.inj (h [])

theorem SameOutline.children {m n : Node} (h : m.SameOutline n) :
    List.Forall₂ SameOutline m.children n.children := by
  have length : m.children.length = n.children.length := congrArg Heading.count h.heading
  refine List.forall₂_iff_get.mpr ⟨length, fun i hm hn path => ?_⟩
  have below := h (i :: path)
  rw [descendant?_cons, descendant?_cons, List.getElem?_eq_getElem hm, List.getElem?_eq_getElem hn]
    at below
  exact below

/-- Outlines are the same if the roots are and the outlines of the children. -/
theorem sameOutline_of_children {m n : Node} (heading : m.heading = n.heading)
    (children : List.Forall₂ SameOutline m.children n.children) : m.SameOutline n := by
  intro path
  cases path with
  | nil => exact congrArg some heading
  | cons i path =>
    obtain ⟨length, each⟩ := List.forall₂_iff_get.mp children
    rw [descendant?_cons, descendant?_cons]
    by_cases inside : i < m.children.length
    · have inside' : i < n.children.length := length ▸ inside
      rw [List.getElem?_eq_getElem inside, List.getElem?_eq_getElem inside']
      exact each i inside inside' path
    · have outside : n.children.length ≤ i := by omega
      rw [List.getElem?_eq_none (by omega), List.getElem?_eq_none outside]

theorem renderList_congr {cs ds : List Node}
    (shown : ∀ c ∈ cs, ∀ d, c.SameOutline d → c.render = d.render)
    (h : List.Forall₂ SameOutline cs ds) : renderList cs = renderList ds := by
  induction h with
  | nil => rfl
  | cons same _ others =>
    have first := shown _ List.mem_cons_self _ same
    rw [renderList, renderList, first, others fun c hc => shown c (List.mem_cons_of_mem _ hc)]

/-- The text shows nothing but the outline. -/
theorem SameOutline.render_eq {m n : Node} (h : m.SameOutline n) : m.render = n.render := by
  induction m using induction_on_children generalizing n with
  | step m ih =>
    have kind : m.tag.name = n.tag.name := congrArg Heading.kind h.heading
    have payload : m.payload = n.payload := congrArg Heading.payload h.heading
    have children : renderList m.children = renderList n.children :=
      renderList_congr (fun c hc _ => ih c hc) h.children
    rw [Node.render_eq, Node.render_eq, kind, payload, children]

/-! ## Reading the text of a tree -/

/-- The name of the kind is told from what follows it: it has no space and no closing bracket. -/
def Delimited (n : Node) : Prop := ' ' ∉ n.tag.name.toList ∧ ']' ∉ n.tag.name.toList

instance (n : Node) : Decidable n.Delimited := inferInstanceAs (Decidable (_ ∧ _))

/-- What stands behind the payload. -/
def childrenText (ns : List Node) (r : List Char) : List Char := (renderList ns).toList ++ ']' :: r

/-- What stands behind the name of the kind. -/
def bodyText (n : Node) (r : List Char) : List Char :=
  (renderPayload n.payload).toList ++ childrenText n.children r

theorem render_append (n : Node) (r : List Char) :
    n.render.toList ++ r = '[' :: '#' :: (n.tag.name.toList ++ n.bodyText r) := by
  rw [Node.render_eq]
  simp [bodyText, childrenText]

theorem childrenText_nil (r : List Char) : childrenText [] r = ']' :: r := rfl

theorem childrenText_cons (n : Node) (ns : List Node) (r : List Char) :
    childrenText (n :: ns) r = ' ' :: (n.render.toList ++ childrenText ns r) := by
  simp [childrenText, renderList]

theorem bodyText_of_none {n : Node} (h : n.payload = none) (r : List Char) :
    n.bodyText r = childrenText n.children r := by
  simp [bodyText, h, renderPayload]

theorem bodyText_of_some {n : Node} {s : String} (h : n.payload = some s) (r : List Char) :
    n.bodyText r = ' ' :: (Quoted.encode s.toList ++ childrenText n.children r) := by
  simp [bodyText, h, renderPayload, quoted]

theorem head?_bodyText (n : Node) (r : List Char) :
    ∃ c ∈ (n.bodyText r).head?, c = ' ' ∨ c = ']' := by
  cases payload : n.payload with
  | some s => exact ⟨' ', by simp [bodyText_of_some payload], .inl rfl⟩
  | none =>
    rw [bodyText_of_none payload]
    cases n.children with
    | nil => exact ⟨']', rfl, .inr rfl⟩
    | cons c cs => exact ⟨' ', by simp [childrenText_cons], .inl rfl⟩

/-- A child begins with a bracket, so it is told from a payload. -/
theorem childrenText_ne_quoted (ns : List Node) (r cs s : List Char) :
    childrenText ns r ≠ ' ' :: (Quoted.encode cs ++ s) := by
  cases ns with
  | nil => simp [childrenText_nil]
  | cons n ns => simp [childrenText_cons, render_append, Quoted.encode]

theorem kind_append_inj {m n : Node} {r s : List Char} (hm : m.Delimited) (hn : n.Delimited)
    (h : m.tag.name.toList ++ m.bodyText r = n.tag.name.toList ++ n.bodyText s) :
    m.tag.name = n.tag.name ∧ m.bodyText r = n.bodyText s := by
  have unstopped {k : Node} (hk : k.Delimited) :
      ∀ c ∈ k.tag.name.toList, ¬ (c = ' ' ∨ c = ']') := by
    rintro c hc (rfl | rfl)
    · exact hk.1 hc
    · exact hk.2 hc
  obtain ⟨kind, body⟩ :=
    append_inj_of_stop (unstopped hm) (unstopped hn) (m.head?_bodyText r) (n.head?_bodyText s) h
  exact ⟨String.toList_inj.mp kind, body⟩

theorem bodyText_inj {m n : Node} {r s : List Char} (h : m.bodyText r = n.bodyText s) :
    m.payload = n.payload ∧ childrenText m.children r = childrenText n.children s := by
  cases hm : m.payload with
  | none =>
    rw [bodyText_of_none hm] at h
    cases hn : n.payload with
    | none =>
      rw [bodyText_of_none hn] at h
      exact ⟨rfl, h⟩
    | some t =>
      rw [bodyText_of_some hn] at h
      exact absurd h (childrenText_ne_quoted _ _ _ _)
  | some t =>
    rw [bodyText_of_some hm] at h
    cases hn : n.payload with
    | none =>
      rw [bodyText_of_none hn] at h
      exact absurd h.symm (childrenText_ne_quoted _ _ _ _)
    | some u =>
      rw [bodyText_of_some hn] at h
      obtain ⟨text, children⟩ := Quoted.encode_append_inj (List.cons.inj h).2
      exact ⟨by rw [String.toList_inj.mp text], children⟩

/-- The text of the tree shows its outline and where it ends, whatever text follows. -/
def ShowsOutline (m : Node) : Prop :=
  ∀ (n : Node) (r s : List Char), n.All Delimited →
    m.render.toList ++ r = n.render.toList ++ s → m.SameOutline n ∧ r = s

theorem childrenText_inj {cs ds : List Node} {r s : List Char} (each : ∀ c ∈ cs, c.ShowsOutline)
    (delimited : ∀ d ∈ ds, d.All Delimited) (h : childrenText cs r = childrenText ds s) :
    List.Forall₂ SameOutline cs ds ∧ r = s := by
  induction cs generalizing ds with
  | nil =>
    cases ds with
    | nil => exact ⟨.nil, (List.cons.inj h).2⟩
    | cons d ds => simp [childrenText_nil, childrenText_cons] at h
  | cons c cs ih =>
    cases ds with
    | nil => simp [childrenText_nil, childrenText_cons] at h
    | cons d ds =>
      rw [childrenText_cons, childrenText_cons] at h
      obtain ⟨same, rest⟩ := each c List.mem_cons_self d _ _ (delimited d List.mem_cons_self)
        (List.cons.inj h).2
      obtain ⟨others, tail⟩ := ih (fun x hx => each x (List.mem_cons_of_mem _ hx))
        (fun x hx => delimited x (List.mem_cons_of_mem _ hx)) rest
      exact ⟨.cons same others, tail⟩

theorem showsOutline_of_delimited {m : Node} (h : m.All Delimited) : m.ShowsOutline := by
  -- What follows is left open, as the text of a child is followed by that of its later siblings.
  induction m using induction_on_children with
  | step m ih =>
    intro n r s hn text
    rw [render_append, render_append] at text
    have behindMark := (List.cons.inj (List.cons.inj text).2).2
    obtain ⟨kind, body⟩ := kind_append_inj h.self hn.self behindMark
    obtain ⟨payload, below⟩ := bodyText_inj body
    obtain ⟨children, rest⟩ :=
      childrenText_inj (fun c hc => ih c hc (h.child hc)) (fun d hd => hn.child hd) below
    have heading : m.heading = n.heading := by
      rw [heading, heading, kind, payload, children.length_eq]
    exact ⟨sameOutline_of_children heading children, rest⟩

/-- **The text of a tree is unambiguous.** If no name of a kind has a space or a closing bracket,
two trees with the same text have, position by position, the same names of kinds, payloads and
numbers of children; and trees of one outline have the same text. -/
theorem render_eq_iff_sameOutline {m n : Node} (hm : m.All Delimited) (hn : n.All Delimited) :
    m.render = n.render ↔ m.SameOutline n := by
  constructor
  · intro same
    exact (showsOutline_of_delimited hm n [] [] hn (by rw [same])).1
  · exact SameOutline.render_eq

/-- With a space in the name of a kind, one node reads as two. -/
example : ({ tag := .other "a [#b]" } : Node).render =
    ({ tag := .other "a", children := [{ tag := .other "b" }] } : Node).render := by
  decide +kernel

/-- The payload looks like the end of its node and a child; one child has an empty payload and the
other one none. -/
def bracketedBlock : Node :=
  { tag := .block
    payload := some "a\"] [#Text \"\\\n"
    children := [.leaf (.other "[#\"Text\"") "", { tag := .text }] }

/-- The same outline with an open kind of the same name, types, a context and a span. -/
def annotatedBlock : Node :=
  { tag := .other "Block"
    payload := some "a\"] [#Text \"\\\n"
    ty := some .void
    children := [
      (Node.leaf (.other "[#\"Text\"") "").withContext "name",
      ({ tag := .text, ty := some .int256 } : Node).withSpan ⟨3, 7⟩] }

theorem render_eq_iff_sameOutline_block :
    bracketedBlock.All Delimited ∧ annotatedBlock.All Delimited ∧
      bracketedBlock.render = annotatedBlock.render ∧
      bracketedBlock.SameOutline annotatedBlock := by
  have plain : bracketedBlock.All Delimited := by decide
  have annotated : annotatedBlock.All Delimited := by decide
  have same : bracketedBlock.render = annotatedBlock.render := by decide +kernel
  exact ⟨plain, annotated, same, (render_eq_iff_sameOutline plain annotated).mp same⟩

end Node

end ContractTyping
