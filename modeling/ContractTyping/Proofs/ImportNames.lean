import ContractTyping.ImportName
import Mathlib.Data.List.Forall2

/-!
Import names and what can be read back of them. A name that can be read is the marker followed by
groups of four characters, each of which spells a code point. Main statements:
`ImportName.decode?_eq_some_iff`, what a name reads as; `ImportName.encode_of_decode?`, which name
is written for what was read; and `ImportName.decode?_encode`, a symbol whose characters fit four
digits is read back.
-/

namespace ContractTyping

/-! ## Digits -/

namespace Hex

/-- A hexadecimal digit of either case. -/
def IsDigit (c : Char) : Prop :=
  ('0' ≤ c ∧ c ≤ '9') ∨ ('a' ≤ c ∧ c ≤ 'f') ∨ ('A' ≤ c ∧ c ≤ 'F')

instance (c : Char) : Decidable (IsDigit c) := inferInstanceAs (Decidable (_ ∨ _ ∨ _))

/-- The sixteen digits in the order of their values. -/
def digits : List Char :=
  ['0', '1', '2', '3', '4', '5', '6', '7', '8', '9', 'a', 'b', 'c', 'd', 'e', 'f']

/-- The value of a digit of either case is its place among the sixteen. -/
def place (c : Char) : Nat := digits.idxOf c.toLower

/-- The number that digits spell, the first one leading. -/
def spelled (cs : List Char) : Nat := cs.foldl (fun n c => 16 * n + place c) 0

theorem le_iff_toNat_le {c d : Char} : c ≤ d ↔ c.toNat ≤ d.toNat := by
  rw [Char.le_def, UInt32.le_iff_toNat_le]
  rfl

theorem isDigit_iff {c : Char} :
    IsDigit c ↔ (48 ≤ c.toNat ∧ c.toNat ≤ 57) ∨ (97 ≤ c.toNat ∧ c.toNat ≤ 102) ∨
      (65 ≤ c.toNat ∧ c.toNat ≤ 70) := by
  simp only [IsDigit, le_iff_toNat_le]
  rfl

theorem toNat_toLower (c : Char) :
    c.toLower.toNat = if 65 ≤ c.toNat ∧ c.toNat ≤ 90 then c.toNat + 32 else c.toNat := by
  have upper : (c.val ≥ 'A'.val ∧ c.val ≤ 'Z'.val) ↔ 65 ≤ c.toNat ∧ c.toNat ≤ 90 := by
    rw [ge_iff_le, UInt32.le_iff_toNat_le, UInt32.le_iff_toNat_le]
    rfl
  unfold Char.toLower
  by_cases h : 65 ≤ c.toNat ∧ c.toNat ≤ 90
  · rw [dif_pos (upper.mpr h), if_pos h, Char.toNat_mk, UInt32.toNat_add]
    show (c.toNat + 32) % 2 ^ 32 = c.toNat + 32
    omega
  · rw [dif_neg (mt upper.mp h), if_neg h]

theorem toNat_digit {n : Nat} (h : n < 16) :
    (digit n).toNat = if n < 10 then 48 + n else 87 + n := by
  revert h n
  decide

theorem idxOf_digit {n : Nat} (h : n < 16) : digits.idxOf (digit n) = n := by
  revert h n
  decide

/-- A character that reads as a digit is the digit of its value, up to case. -/
theorem digit_of_value? {c : Char} {v : Nat} (h : value? c = some v) :
    IsDigit c ∧ v < 16 ∧ digit v = c.toLower := by
  have ranges : IsDigit c ∧ v < 16 ∧ (if v < 10 then 48 + v else 87 + v) =
      if 65 ≤ c.toNat ∧ c.toNat ≤ 90 then c.toNat + 32 else c.toNat := by
    rw [isDigit_iff]
    simp only [value?, le_iff_toNat_le] at h
    grind
  refine ⟨ranges.1, ranges.2.1, Char.toNat_inj.mp ?_⟩
  rw [toNat_digit ranges.2.1, toNat_toLower, ranges.2.2]

theorem value?_eq_some_iff {c : Char} {v : Nat} :
    value? c = some v ↔ IsDigit c ∧ v = place c := by
  constructor
  · intro h
    obtain ⟨digit, small, lower⟩ := digit_of_value? h
    exact ⟨digit, by rw [place, ← lower, idxOf_digit small]⟩
  · rintro ⟨h, rfl⟩
    have read : ∃ v, value? c = some v := by
      simp only [value?]
      rcases h with h | h | h <;> split_ifs <;> simp
    obtain ⟨v, hv⟩ := read
    obtain ⟨-, small, lower⟩ := digit_of_value? hv
    rw [hv, place, ← lower, idxOf_digit small]

theorem place_lt {c : Char} (h : IsDigit c) : place c < 16 :=
  (digit_of_value? (value?_eq_some_iff.mpr ⟨h, rfl⟩)).2.1

theorem digit_place {c : Char} (h : IsDigit c) : digit (place c) = c.toLower :=
  (digit_of_value? (value?_eq_some_iff.mpr ⟨h, rfl⟩)).2.2

theorem number?_eq_some_iff {cs : List Char} {n : Nat} :
    number? cs = some n ↔ (∀ c ∈ cs, IsDigit c) ∧ n = spelled cs := by
  -- The digits read so far stand for any number.
  have general : ∀ start, cs.foldlM (fun n c => (value? c).map (16 * n + ·)) start = some n ↔
      (∀ c ∈ cs, IsDigit c) ∧ n = cs.foldl (fun n c => 16 * n + place c) start := by
    induction cs with
    | nil =>
      intro start
      simp [eq_comm]
    | cons c cs ih =>
      intro start
      by_cases digit : IsDigit c
      · have read : value? c = some (place c) := value?_eq_some_iff.mpr ⟨digit, rfl⟩
        simp [List.foldlM_cons, read, ih, digit]
      · have unread : value? c = none := by
          refine Option.eq_none_iff_forall_ne_some.mpr fun v h => ?_
          exact digit (value?_eq_some_iff.mp h).1
        simp [List.foldlM_cons, unread, digit]
  exact general 0

theorem charOf?_eq_some_iff {n : Nat} {c : Char} : charOf? n = some c ↔ n = c.toNat := by
  unfold charOf?
  constructor
  · intro h
    split at h
    · rename_i valid
      cases h
      rw [Char.ofNat, dif_pos valid]
      rfl
    · cases h
  · rintro rfl
    have valid : c.toNat.isValidChar := c.valid
    rw [if_pos valid, Char.ofNat_toNat]

theorem lowest4_of_places {a b c d : Nat} (ha : a < 16) (hb : b < 16) (hc : c < 16) (hd : d < 16) :
    16 * (16 * (16 * a + b) + c) + d < 65536 ∧
      lowest4 (16 * (16 * (16 * a + b) + c) + d) = [digit a, digit b, digit c, digit d] := by
  have third : (16 * (16 * (16 * a + b) + c) + d) / 4096 % 16 = a := by omega
  have second : (16 * (16 * (16 * a + b) + c) + d) / 256 % 16 = b := by omega
  have first : (16 * (16 * (16 * a + b) + c) + d) / 16 % 16 = c := by omega
  have zeroth : (16 * (16 * (16 * a + b) + c) + d) % 16 = d := by omega
  exact ⟨by omega, by rw [lowest4, third, second, first, zeroth]⟩

end Hex

/-! ## Groups -/

namespace ImportName

/-- Four digits, or a plus sign and three digits, with the number that they spell. -/
inductive Group : List Char → Nat → Prop
  | digits {a b c d : Char} (each : ∀ x ∈ [a, b, c, d], Hex.IsDigit x) :
      Group [a, b, c, d] (Hex.spelled [a, b, c, d])
  | signed {b c d : Char} (each : ∀ x ∈ [b, c, d], Hex.IsDigit x) :
      Group ['+', b, c, d] (Hex.spelled [b, c, d])

/-- A digit in lower case; a plus sign counts as zero. -/
def plain (c : Char) : Char := if c = '+' then '0' else c.toLower

theorem not_isDigit_plus : ¬ Hex.IsDigit '+' := by decide

theorem plain_of_isDigit {c : Char} (h : Hex.IsDigit c) : plain c = c.toLower := by
  have digit : c ≠ '+' := fun same => not_isDigit_plus (same ▸ h)
  rw [plain, if_neg digit]

theorem groupNumber?_eq_some_iff {a b c d : Char} {n : Nat} :
    groupNumber? [a, b, c, d] = some n ↔ Group [a, b, c, d] n := by
  by_cases plus : a = '+'
  · subst plus
    constructor
    · intro h
      obtain ⟨each, rfl⟩ := Hex.number?_eq_some_iff.mp h
      exact .signed each
    · intro h
      cases h with
      | digits each => exact absurd (each '+' List.mem_cons_self) not_isDigit_plus
      | signed each => exact Hex.number?_eq_some_iff.mpr ⟨each, rfl⟩
  · have unsigned : groupNumber? [a, b, c, d] = Hex.number? [a, b, c, d] := by
      unfold groupNumber?
      split
      · simp_all
      · rfl
    rw [unsigned, Hex.number?_eq_some_iff]
    constructor
    · rintro ⟨each, rfl⟩
      exact .digits each
    · intro h
      cases h with
      | digits each => exact ⟨each, rfl⟩
      | signed => exact absurd rfl plus

theorem digit_place {c : Char} (h : Hex.IsDigit c) : Hex.digit (Hex.place c) = plain c := by
  rw [Hex.digit_place h, plain_of_isDigit h]

/-- The number of a group has four digits, and these are the group in plain digits. -/
theorem Group.lowest4 {g : List Char} {n : Nat} (h : Group g n) :
    n < 65536 ∧ Hex.lowest4 n = g.map plain := by
  cases h with
  | @digits a b c d each =>
    simp only [List.forall_mem_cons] at each
    obtain ⟨ha, hb, hc, hd, -⟩ := each
    have four := Hex.lowest4_of_places (Hex.place_lt ha) (Hex.place_lt hb) (Hex.place_lt hc)
      (Hex.place_lt hd)
    have value : Hex.spelled [a, b, c, d] =
        16 * (16 * (16 * Hex.place a + Hex.place b) + Hex.place c) + Hex.place d := by
      simp [Hex.spelled]
    rw [value]
    refine ⟨four.1, four.2.trans ?_⟩
    simp [digit_place, ha, hb, hc, hd]
  | @signed b c d each =>
    simp only [List.forall_mem_cons] at each
    obtain ⟨hb, hc, hd, -⟩ := each
    -- A plus sign stands where the leading digit would be zero.
    have four := Hex.lowest4_of_places (a := 0) (by decide) (Hex.place_lt hb) (Hex.place_lt hc)
      (Hex.place_lt hd)
    have zero : plain '+' = Hex.digit 0 := by decide
    refine ⟨four.1, four.2.trans ?_⟩
    simp [digit_place, hb, hc, hd, zero]

theorem Group.four {g : List Char} {n : Nat} (h : Group g n) : ∃ a b c d, g = [a, b, c, d] := by
  cases h with
  | digits => exact ⟨_, _, _, _, rfl⟩
  | signed => exact ⟨_, _, _, _, rfl⟩

/-- The four digits that are written for a code point are a group again. -/
theorem group_lowest4 {n : Nat} (h : n < 65536) : Group (Hex.lowest4 n) n := by
  obtain ⟨each, value⟩ := Hex.number?_eq_some_iff.mp (Hex.number?_lowest4 n)
  have written := Group.digits each
  rw [Nat.mod_eq_of_lt h] at value
  rwa [← Hex.lowest4, ← value] at written

/-! ## Names -/

/-- The groups spell the characters, one for one. -/
abbrev SpellAll (groups : List (List Char)) (ts : List Char) : Prop :=
  List.Forall₂ (fun g t => Group g t.toNat) groups ts

theorem decodeGroups_eq_some_iff {cs ts : List Char} :
    decodeGroups cs = some ts ↔ ∃ groups, cs = groups.flatten ∧ SpellAll groups ts := by
  constructor
  · intro h
    fun_induction decodeGroups cs generalizing ts with
    | case1 =>
      cases h
      exact ⟨[], rfl, .nil⟩
    | case2 a b c d rest ih =>
      obtain ⟨t, ht, h⟩ := Option.bind_eq_some_iff.mp h
      obtain ⟨n, hn, hc⟩ := Option.bind_eq_some_iff.mp ht
      obtain ⟨ts', hts, h⟩ := Option.bind_eq_some_iff.mp h
      cases h
      obtain ⟨groups, rfl, each⟩ := ih hts
      cases Hex.charOf?_eq_some_iff.mp hc
      exact ⟨[a, b, c, d] :: groups, rfl, .cons (groupNumber?_eq_some_iff.mp hn) each⟩
    | case3 => cases h
  · rintro ⟨groups, rfl, each⟩
    induction each with
    | nil => rfl
    | @cons g t groups ts one _ ih =>
      obtain ⟨a, b, c, d, rfl⟩ := one.four
      have number := groupNumber?_eq_some_iff.mpr one
      have char : Hex.charOf? t.toNat = some t := Hex.charOf?_eq_some_iff.mpr rfl
      show decodeGroups (a :: b :: c :: d :: groups.flatten) = some (t :: ts)
      simp [decodeGroups, number, char, ih]

theorem decodeChars_eq_some_iff {cs ts : List Char} :
    decodeChars cs = some ts ↔ ∃ rest, cs = marker ++ rest ∧ decodeGroups rest = some ts := by
  constructor
  · intro h
    unfold decodeChars at h
    split at h
    · exact ⟨_, rfl, h⟩
    · cases h
  · rintro ⟨rest, rfl, h⟩
    exact h

theorem toList_marked (cs : List Char) : ("v_" ++ String.ofList cs).toList = marker ++ cs := by
  simp [marker]

/-- **What a name reads as.** -/
theorem decode?_eq_some_iff {e t : String} :
    decode? e = some t ↔
      ∃ groups, e = "v_" ++ String.ofList groups.flatten ∧ SpellAll groups t.toList := by
  have text : ∀ cs : List Char, e = "v_" ++ String.ofList cs ↔ e.toList = marker ++ cs := by
    intro cs
    rw [← String.toList_inj, toList_marked]
  have read : decode? e = some t ↔ decodeChars e.toList = some t.toList := by
    unfold decode?
    constructor
    · intro h
      obtain ⟨ts, hts, rfl⟩ := Option.map_eq_some_iff.mp h
      rwa [String.toList_ofList]
    · intro h
      rw [h, Option.map_some, String.ofList_toList]
  rw [read, decodeChars_eq_some_iff]
  constructor
  · rintro ⟨rest, hrest, h⟩
    obtain ⟨groups, rfl, each⟩ := decodeGroups_eq_some_iff.mp h
    exact ⟨groups, (text _).mpr hrest, each⟩
  · rintro ⟨groups, he, each⟩
    exact ⟨groups.flatten, (text _).mp he, decodeGroups_eq_some_iff.mpr ⟨groups, rfl, each⟩⟩

theorem padded_of_spellAll {groups : List (List Char)} {ts : List Char} (h : SpellAll groups ts) :
    ts.flatMap (fun t => Hex.padded t.toNat) = groups.flatten.map plain := by
  induction h with
  | nil => rfl
  | cons one _ ih =>
    obtain ⟨small, digits⟩ := one.lowest4
    rw [List.flatMap_cons, ih, Hex.padded, if_pos small, digits, List.flatten_cons, List.map_append]

/-- **What was read is written in plain digits.** -/
theorem encode_of_decode? {e t : String} (h : decode? e = some t) : encode t = e.map plain := by
  obtain ⟨groups, rfl, each⟩ := decode?_eq_some_iff.mp h
  have kept : marker.map plain = marker := by decide
  rw [← String.toList_inj, String.toList_map, toList_marked, List.map_append, kept, encode,
    String.toList_ofList, encodeChars, padded_of_spellAll each]

/-- Every character has a code point of at most four digits. -/
def InBasicPlane (s : String) : Prop := ∀ c ∈ s.toList, c.toNat ≤ 0xFFFF

instance (s : String) : Decidable (InBasicPlane s) :=
  List.decidableBAll (fun c : Char => c.toNat ≤ 0xFFFF) s.toList

theorem toNat_le_of_spellAll {groups : List (List Char)} {ts : List Char} (h : SpellAll groups ts) :
    ∀ t ∈ ts, t.toNat ≤ 0xFFFF := by
  induction h with
  | nil => simp
  | cons one _ ih =>
    have small := one.lowest4.1
    exact List.forall_mem_cons.mpr ⟨by omega, ih⟩

theorem inBasicPlane_of_decode? {e t : String} (h : decode? e = some t) : InBasicPlane t := by
  obtain ⟨groups, -, each⟩ := decode?_eq_some_iff.mp h
  exact toNat_le_of_spellAll each

theorem spellAll_lowest4 {cs : List Char} (h : ∀ c ∈ cs, c.toNat ≤ 0xFFFF) :
    SpellAll (cs.map fun c => Hex.lowest4 c.toNat) cs := by
  induction cs with
  | nil => exact .nil
  | cons c cs ih =>
    have small := h c List.mem_cons_self
    exact .cons (group_lowest4 (by omega)) (ih fun d hd => h d (List.mem_cons_of_mem _ hd))

/-- **A symbol of the basic plane is read back.** -/
theorem decode?_encode {s : String} (h : InBasicPlane s) : decode? (encode s) = some s := by
  refine decode?_eq_some_iff.mpr ⟨_, ?_, spellAll_lowest4 h⟩
  have padded : ∀ c ∈ s.toList, Hex.padded c.toNat = Hex.lowest4 c.toNat := by
    intro c hc
    have small := h c hc
    exact if_pos (by omega)
  rw [← String.toList_inj, toList_marked, encode, String.toList_ofList, encodeChars, List.flatMap,
    List.map_congr_left padded]

/-- **Import names are reversible on the basic plane only.** A symbol of the basic plane is told
apart from all others, and any other symbol is read from no name at all. -/
theorem reversible_iff_inBasicPlane (s : String) :
    (decode? (encode s) = some s ↔ InBasicPlane s) ∧
    (InBasicPlane s → ∀ t, InBasicPlane t → encode s = encode t → s = t) ∧
    (¬ InBasicPlane s → ∀ e, decode? e ≠ some s) := by
  refine ⟨⟨inBasicPlane_of_decode?, decode?_encode⟩, ?_, ?_⟩
  · intro hs t ht same
    have read := decode?_encode hs
    rw [same, decode?_encode ht] at read
    exact (Option.some.inj read).symm
  · intro hs e h
    exact hs (inBasicPlane_of_decode? h)

theorem reversible_iff_inBasicPlane_accents :
    InBasicPlane "crème" ∧ InBasicPlane "creme" ∧ ¬ InBasicPlane "𝛼" ∧
    decode? (encode "crème") = some "crème" ∧ encode "crème" ≠ encode "creme" ∧
    ∀ e, decode? e ≠ some "𝛼" := by
  have accented : InBasicPlane "crème" := by decide
  have plain : InBasicPlane "creme" := by decide
  have beyond : ¬ InBasicPlane "𝛼" := by decide
  obtain ⟨back, apart, -⟩ := reversible_iff_inBasicPlane "crème"
  refine ⟨accented, plain, beyond, back.mpr accented, ?_, ?_⟩
  · exact fun same => absurd (apart accented "creme" plain same) (by decide)
  · exact (reversible_iff_inBasicPlane "𝛼").2.2 beyond

/-! ## The names that can be read -/

/-- The marker, then groups that spell no surrogate. -/
def Legible (e : String) : Prop :=
  ∃ groups : List (List Char), e = "v_" ++ String.ofList groups.flatten ∧
    ∀ g ∈ groups, ∃ n, Group g n ∧ ¬ (0xD800 ≤ n ∧ n ≤ 0xDFFF)

theorem exists_char {n : Nat} (small : n < 65536) (h : ¬ (0xD800 ≤ n ∧ n ≤ 0xDFFF)) :
    ∃ c : Char, n = c.toNat := by
  have valid : n.isValidChar := by
    unfold Nat.isValidChar
    omega
  exact ⟨Char.ofNat n, Hex.charOf?_eq_some_iff.mp (if_pos valid)⟩

theorem toNat_not_surrogate (c : Char) : ¬ (0xD800 ≤ c.toNat ∧ c.toNat ≤ 0xDFFF) := by
  have valid : c.toNat.isValidChar := c.valid
  unfold Nat.isValidChar at valid
  omega

theorem exists_spellAll_iff {groups : List (List Char)} :
    (∃ ts, SpellAll groups ts) ↔ ∀ g ∈ groups, ∃ n, Group g n ∧ ¬ (0xD800 ≤ n ∧ n ≤ 0xDFFF) := by
  constructor
  · rintro ⟨ts, each⟩
    induction each with
    | nil => simp
    | cons one _ ih => exact List.forall_mem_cons.mpr ⟨⟨_, one, toNat_not_surrogate _⟩, ih⟩
  · intro h
    induction groups with
    | nil => exact ⟨[], .nil⟩
    | cons g groups ih =>
      obtain ⟨n, one, scalar⟩ := h g List.mem_cons_self
      obtain ⟨t, rfl⟩ := exists_char one.lowest4.1 scalar
      obtain ⟨ts, each⟩ := ih fun k hk => h k (List.mem_cons_of_mem _ hk)
      exact ⟨t :: ts, .cons one each⟩

/-- **The names that can be read, and their plain form.** What is read from a name is written with
its plus signs as zeros and its digits in lower case, and reads the same. -/
theorem readable_iff_legible (e : String) :
    ((∃ t, decode? e = some t) ↔ Legible e) ∧
    ∀ t, decode? e = some t → encode t = e.map plain ∧ decode? (encode t) = some t := by
  constructor
  · simp only [decode?_eq_some_iff, Legible, ← exists_spellAll_iff]
    constructor
    · rintro ⟨t, groups, he, each⟩
      exact ⟨groups, he, t.toList, each⟩
    · rintro ⟨groups, he, ts, each⟩
      refine ⟨String.ofList ts, groups, he, ?_⟩
      rwa [String.toList_ofList]
  · intro t h
    exact ⟨encode_of_decode? h, decode?_encode (inBasicPlane_of_decode? h)⟩

theorem readable_iff_legible_signed :
    decode? "v_+0E900dF" = some "éß" ∧ Legible "v_+0E900dF" ∧
    encode "éß" = "v_+0E900dF".map plain ∧ decode? (encode "éß") = some "éß" := by
  have read : decode? "v_+0E900dF" = some "éß" := by decide +kernel
  obtain ⟨language, normal⟩ := readable_iff_legible "v_+0E900dF"
  exact ⟨read, language.mp ⟨_, read⟩, normal _ read⟩

end ImportName

end ContractTyping
