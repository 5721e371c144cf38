import IntervalSuite.Itl.Token.Lexer
import IntervalSuite.Proofs.Text.Run
import Mathlib.Tactic.IntervalCases

/-!
# The grammar of numeric constants

`Constant.WellFormed` says which texts are integer and floating constants, without the scanner of
`IntervalSuite.Itl.Token.Number`: its hexadecimal digits and the suffixes of integers are spelled out.

* `isHexDigit_eq`, `isIntSuffix_iff`: the tests of the scanner are those of the grammar.
* `scanned_leadingConstant`: what the scanner takes off a text that starts with a number is the body
  of a constant at the start of the text and the suffix behind it, so it is such a constant.
* `leadingConstant_append`: the scanner takes the whole of a constant in front of a blank, with the
  right kind, whatever stood behind the constant before.
-/

namespace IntervalSuite.Itl

open Text

/-! ## The grammar -/

/-- A run of at least one digit. -/
def IsRun (digit : Char → Bool) (ds : List Char) : Prop := ds ≠ [] ∧ ∀ d ∈ ds, digit d

/-- The digits of a number, with a point among them or at one of their ends. -/
inductive Mantissa (digit : Char → Bool) : List Char → Bool → Prop where
  | whole {ds : List Char} (h : IsRun digit ds) : Mantissa digit ds false
  | point {as bs : List Char} (hne : as ≠ [] ∨ bs ≠ []) (ha : ∀ d ∈ as, digit d)
      (hb : ∀ d ∈ bs, digit d) : Mantissa digit (as ++ '.' :: bs) true

/-- A mark, an optional sign and decimal digits. -/
inductive Exponent (marks : List Char) : List Char → Prop where
  | mk {m : Char} {sign ds : List Char} (hm : m ∈ marks) (hs : sign ∈ [[], ['+'], ['-']])
      (hd : IsRun Char.isDigit ds) : Exponent marks (m :: (sign ++ ds))

/-- The hexadecimal digits. -/
def hexDigits : List Char :=
  ['0', '1', '2', '3', '4', '5', '6', '7', '8', '9', 'a', 'b', 'c', 'd', 'e', 'f', 'A', 'B', 'C', 'D',
    'E', 'F']

/-- The suffixes of integers: `u`, `l`, `ll`, `ul`, `lu`, `ull` and `llu`, where `u` and `l` are
written in either case, and `ll` as `ll` or `LL`. -/
def intSuffixes : List (List Char) :=
  [['u'], ['U'], ['l'], ['L'], ['l', 'l'], ['L', 'L'],
    ['u', 'l'], ['u', 'L'], ['U', 'l'], ['U', 'L'],
    ['l', 'u'], ['l', 'U'], ['L', 'u'], ['L', 'U'],
    ['u', 'l', 'l'], ['u', 'L', 'L'], ['U', 'l', 'l'], ['U', 'L', 'L'],
    ['l', 'l', 'u'], ['l', 'l', 'U'], ['L', 'L', 'u'], ['L', 'L', 'U']]

/-- The digits of an integer constant. -/
inductive IntBody : List Char → Prop where
  | decimal {ds : List Char} (h : IsRun Char.isDigit ds) : IntBody ds
  | hex {x : Char} {ds : List Char} (hx : x = 'x' ∨ x = 'X') (h : IsRun (· ∈ hexDigits) ds) :
      IntBody ('0' :: x :: ds)

/-- A floating constant without its suffix. A decimal one has a point or an exponent, and a
hexadecimal one has an exponent. -/
inductive FloatBody : List Char → Prop where
  | fixed {m : List Char} (hm : Mantissa Char.isDigit m true) : FloatBody m
  | decimal {m e : List Char} {point : Bool} (hm : Mantissa Char.isDigit m point)
      (he : Exponent ['e', 'E'] e) : FloatBody (m ++ e)
  | hex {x : Char} {m e : List Char} {point : Bool} (hx : x = 'x' ∨ x = 'X')
      (hm : Mantissa (· ∈ hexDigits) m point) (he : Exponent ['p', 'P'] e) :
      FloatBody ('0' :: x :: (m ++ e))

/-- A constant is a body with an optional suffix, and its kind is that of the body. -/
inductive Constant.WellFormed : Constant → Prop where
  | integer {body suffix : List Char} (h : IntBody body) (hs : suffix ∈ [] :: intSuffixes) :
      WellFormed ⟨body ++ suffix, false⟩
  | float {body suffix : List Char} (h : FloatBody body)
      (hs : suffix ∈ [[], ['f'], ['F'], ['l'], ['L']]) : WellFormed ⟨body ++ suffix, true⟩

/-- The scanner has taken a body at the start of the text and the suffix that it finds behind it. -/
inductive Constant.ScannedFrom (cs : List Char) : Constant → Prop where
  | integer {body rest : List Char} (h : IntBody body) (hcs : cs = body ++ rest) :
      ScannedFrom cs ⟨body ++ leadingIntSuffix rest, false⟩
  | float {body rest : List Char} (h : FloatBody body) (hcs : cs = body ++ rest) :
      ScannedFrom cs ⟨body ++ leadingFloatSuffix rest, true⟩

/-! ## The tests of the scanner -/

theorem toNat_of_isHexDigit {c : Char} (h : isHexDigit c) :
    48 ≤ c.toNat ∧ c.toNat ≤ 57 ∨ 97 ≤ c.toNat ∧ c.toNat ≤ 102 ∨
      65 ≤ c.toNat ∧ c.toNat ≤ 70 := by
  simp only [isHexDigit, Char.isDigit, Bool.or_eq_true, Bool.and_eq_true, decide_eq_true_eq,
    ge_iff_le, Char.le_def, UInt32.le_iff_toNat_le] at h
  rw [or_assoc] at h
  exact h

/-- The scanner tests for hexadecimal digits. -/
theorem isHexDigit_eq : (fun c => decide (c ∈ hexDigits)) = isHexDigit := by
  have hdigits : ∀ c ∈ hexDigits, isHexDigit c := by simp [hexDigits, isHexDigit, Char.isDigit]
  funext c
  rw [Bool.eq_iff_iff, decide_eq_true_eq]
  refine ⟨hdigits c, fun h => ?_⟩
  have hcode := toNat_of_isHexDigit h
  rw [← Char.ofNat_toNat c]
  generalize c.toNat = n at hcode
  obtain ⟨hlo, hhi⟩ | ⟨hlo, hhi⟩ | ⟨hlo, hhi⟩ := hcode <;> interval_cases n <;> simp [hexDigits]

theorem IntBody.ofHex {x : Char} {ds : List Char} (hx : x = 'x' ∨ x = 'X')
    (h : IsRun isHexDigit ds) : IntBody ('0' :: x :: ds) :=
  .hex hx (isHexDigit_eq ▸ h)

theorem FloatBody.ofHex {x : Char} {m e : List Char} {point : Bool} (hx : x = 'x' ∨ x = 'X')
    (hm : Mantissa isHexDigit m point) (he : Exponent ['p', 'P'] e) :
    FloatBody ('0' :: x :: (m ++ e)) :=
  .hex hx (isHexDigit_eq ▸ hm) he

/-- The marks `u` that are taken off stand at the ends. -/
theorem exists_lengthPart (cs : List Char) :
    ∃ front back, cs = front ++ lengthPart cs ++ back ∧ (∀ c ∈ front, isUnsignedMark c) ∧
      ∀ c ∈ back, isUnsignedMark c := by
  refine ⟨cs.takeWhile isUnsignedMark,
    ((cs.dropWhile isUnsignedMark).reverse.takeWhile isUnsignedMark).reverse, ?_,
    fun c hc => List.mem_takeWhile_imp hc,
    fun c hc => List.mem_takeWhile_imp (List.mem_reverse.mp hc)⟩
  rw [lengthPart, List.append_assoc, ← List.reverse_append, List.takeWhile_append_dropWhile,
    List.reverse_reverse, List.takeWhile_append_dropWhile]

theorem eq_of_isUnsignedMark {c : Char} (h : isUnsignedMark c) : c = 'u' ∨ c = 'U' := by
  simpa [isUnsignedMark] using h

/-- **The scanner tests for suffixes of integers.** -/
theorem isIntSuffix_iff {cs : List Char} : isIntSuffix cs = true ↔ cs ∈ intSuffixes := by
  constructor
  · intro h
    simp only [isIntSuffix, Bool.and_eq_true, Bool.not_eq_true', List.isEmpty_eq_false_iff,
      decide_eq_true_eq, beq_iff_eq, List.contains_iff_mem] at h
    obtain ⟨⟨⟨hne, hmarks⟩, hlength⟩, hpart⟩ := h
    obtain ⟨front, back, hcs, hfront, hback⟩ := exists_lengthPart cs
    generalize lengthPart cs = part at hcs hlength hpart
    -- At most one mark has been taken off.
    have hends : front.length + back.length ≤ 1 := by
      have hsplit := congrArg List.length hcs
      simp only [List.length_append] at hsplit
      omega
    simp only [List.mem_cons, List.not_mem_nil, or_false] at hpart
    cases front with
    | cons c front =>
      rw [List.length_cons] at hends
      obtain rfl : front = [] := List.length_eq_zero_iff.mp (by omega)
      obtain rfl : back = [] := List.length_eq_zero_iff.mp (by omega)
      obtain rfl | rfl := eq_of_isUnsignedMark (hfront c (by simp)) <;>
        rcases hpart with rfl | rfl | rfl | rfl | rfl <;> simp [hcs, intSuffixes]
    | nil =>
      cases back with
      | cons c back =>
        rw [List.length_cons] at hends
        obtain rfl : back = [] := List.length_eq_zero_iff.mp (by omega)
        obtain rfl | rfl := eq_of_isUnsignedMark (hback c (by simp)) <;>
          rcases hpart with rfl | rfl | rfl | rfl | rfl <;> simp [hcs, intSuffixes]
      | nil =>
        rcases hpart with rfl | rfl | rfl | rfl | rfl
        · exact absurd hcs hne
        all_goals simp [hcs, intSuffixes]
  · exact (by decide : ∀ s ∈ intSuffixes, isIntSuffix s = true) cs

/-! ## The scanner finds constants -/

theorem append_isPrefix {as bs cs : List Char} (ha : as <+: cs) (hb : bs <+: cs.drop as.length) :
    as ++ bs <+: cs := by
  obtain ⟨rest, rfl⟩ := ha
  rw [List.drop_left] at hb
  exact List.prefix_append_right_inj as |>.mpr hb

theorem leadingIntSuffix_cases (cs : List Char) :
    leadingIntSuffix cs = [] ∨
      ∃ n, leadingIntSuffix cs = cs.take n ∧ cs.take n ∈ intSuffixes := by
  unfold leadingIntSuffix
  split
  · rename_i n hfind
    have hn := List.find?_some hfind
    rw [Bool.and_eq_true, isIntSuffix_iff] at hn
    exact .inr ⟨n, rfl, hn.2⟩
  · exact .inl rfl

theorem leadingIntSuffix_mem (cs : List Char) : leadingIntSuffix cs ∈ [] :: intSuffixes := by
  obtain h | ⟨n, h, hmem⟩ := leadingIntSuffix_cases cs
  · simp [h]
  · exact h ▸ List.mem_cons_of_mem _ hmem

theorem leadingIntSuffix_isPrefix (cs : List Char) : leadingIntSuffix cs <+: cs := by
  obtain h | ⟨n, h, -⟩ := leadingIntSuffix_cases cs
  · exact h ▸ List.nil_prefix
  · exact h ▸ List.take_prefix n cs

theorem leadingFloatSuffix_mem (cs : List Char) :
    leadingFloatSuffix cs ∈ [[], ['f'], ['F'], ['l'], ['L']] := by
  cases cs with
  | nil => simp [leadingFloatSuffix]
  | cons c cs =>
    simp only [leadingFloatSuffix]
    split
    · rename_i h
      simp only [isFloatSuffix, Bool.or_eq_true, beq_iff_eq] at h
      rcases h with ((rfl | rfl) | rfl) | rfl <;> simp
    · simp

theorem leadingFloatSuffix_isPrefix (cs : List Char) : leadingFloatSuffix cs <+: cs := by
  cases cs with
  | nil => exact List.nil_prefix
  | cons c cs =>
    simp only [leadingFloatSuffix]
    split
    · exact ⟨cs, rfl⟩
    · exact List.nil_prefix

theorem leadingSign_mem (cs : List Char) : leadingSign cs ∈ [[], ['+'], ['-']] := by
  cases cs with
  | nil => simp [leadingSign]
  | cons c cs =>
    simp only [leadingSign]
    split
    · rename_i h
      rcases h with rfl | rfl <;> simp
    · simp

theorem leadingSign_isPrefix (cs : List Char) : leadingSign cs <+: cs := by
  cases cs with
  | nil => exact List.nil_prefix
  | cons c cs =>
    simp only [leadingSign]
    split
    · exact ⟨cs, rfl⟩
    · exact List.nil_prefix

theorem leadingExponent_cases (marks cs : List Char) :
    leadingExponent marks cs = [] ∨ Exponent marks (leadingExponent marks cs) := by
  cases cs with
  | nil => exact .inl rfl
  | cons m cs =>
    simp only [leadingExponent]
    split
    · rename_i h
      exact .inr (.mk h.1 (leadingSign_mem cs) ⟨h.2, fun d hd => List.mem_takeWhile_imp hd⟩)
    · exact .inl rfl

theorem leadingExponent_isPrefix (marks cs : List Char) : leadingExponent marks cs <+: cs := by
  cases cs with
  | nil => exact List.nil_prefix
  | cons m cs =>
    simp only [leadingExponent]
    split
    · rw [List.prefix_cons_inj]
      exact append_isPrefix (leadingSign_isPrefix cs) (List.takeWhile_prefix _)
    · exact List.nil_prefix

theorem Exponent.ne_nil {marks e : List Char} (h : Exponent marks e) : e ≠ [] := by
  cases h
  simp

/-! ### Decimal constants -/

/-- The point at the start of `rest` and the digits behind it, where `whole` stands before it. -/
def decimalFraction (whole rest : List Char) : List Char :=
  match rest with
  | '.' :: more =>
    if more.takeWhile Char.isDigit ≠ [] ∨ whole ≠ [] then '.' :: more.takeWhile Char.isDigit else []
  | _ => []

/-- The constant whose parts are the digits `whole`, then `fraction`, and an exponent and a suffix
from `rest`. -/
def decimalOf (whole fraction rest : List Char) : Constant :=
  let exponent := leadingExponent ['e', 'E'] rest
  let body := whole ++ fraction ++ exponent
  let behind := rest.drop exponent.length
  if fraction ≠ [] ∨ exponent ≠ [] then ⟨body ++ leadingFloatSuffix behind, true⟩
  else ⟨body ++ leadingIntSuffix behind, false⟩

theorem decimalFraction_isPrefix (whole rest : List Char) :
    decimalFraction whole rest <+: rest := by
  unfold decimalFraction
  split
  · split
    · rw [List.prefix_cons_inj]
      exact List.takeWhile_prefix _
    · exact List.nil_prefix
  · exact List.nil_prefix

theorem decimalConstant_eq {whole rest : List Char} (hw : ∀ d ∈ whole, d.isDigit)
    (hr : Stops Char.isDigit rest) :
    decimalConstant (whole ++ rest) =
      decimalOf whole (decimalFraction whole rest)
        (rest.drop (decimalFraction whole rest).length) := by
  have hwhole := takeWhile_run hw hr
  unfold decimalConstant decimalOf
  simp only [hwhole, List.drop_left, List.length_append, List.append_assoc]
  rw [← List.drop_drop, ← List.drop_drop, List.drop_left]
  rfl

/-- The digits and the fraction at the start of a number are a mantissa. -/
theorem mantissa_decimalFraction {whole rest : List Char} (hw : ∀ d ∈ whole, d.isDigit)
    (hne : whole ≠ [] ∨ decimalFraction whole rest ≠ []) :
    Mantissa Char.isDigit (whole ++ decimalFraction whole rest)
      (decide (decimalFraction whole rest ≠ [])) := by
  by_cases hf : decimalFraction whole rest = []
  · rw [hf] at hne ⊢
    rw [List.append_nil, decide_eq_false (by simp)]
    exact .whole ⟨by simpa using hne, hw⟩
  · rw [decide_eq_true hf]
    unfold decimalFraction at hf ⊢
    split at hf
    · split at hf
      · rename_i h
        rw [if_pos h]
        exact .point h.symm hw fun d hd => List.mem_takeWhile_imp hd
      · exact absurd rfl hf
    · exact absurd rfl hf

theorem startsNumber_mantissa {whole rest : List Char} (h : startsNumber (whole ++ rest) = true)
    (hr : Stops Char.isDigit rest) : whole ≠ [] ∨ decimalFraction whole rest ≠ [] := by
  by_cases hw : whole = []
  · subst hw
    right
    unfold startsNumber at h
    split at h
    · rename_i heq
      rw [List.nil_append] at heq
      simp [heq, decimalFraction, h]
    · rename_i heq
      rw [List.nil_append] at heq
      have := hr _ (by rw [heq]; rfl)
      simp [this] at h
    · cases h
  · exact .inl hw

theorem scanned_decimalConstant {cs : List Char} (h : startsNumber cs = true) :
    (decimalConstant cs).ScannedFrom cs := by
  obtain ⟨whole, rest, rfl, hw, hr⟩ := exists_run Char.isDigit cs
  have hm := mantissa_decimalFraction hw (startsNumber_mantissa h hr)
  have hf := decimalFraction_isPrefix whole rest
  rw [decimalConstant_eq hw hr]
  generalize decimalFraction whole rest = fraction at hm hf ⊢
  obtain ⟨behind, rfl⟩ := hf
  rw [List.drop_left]
  have hpre := leadingExponent_isPrefix ['e', 'E'] behind
  have hcases := leadingExponent_cases ['e', 'E'] behind
  unfold decimalOf
  simp only []
  generalize leadingExponent ['e', 'E'] behind = exponent at hpre hcases ⊢
  obtain ⟨behind, rfl⟩ := hpre
  rw [List.drop_left]
  rcases hcases with rfl | he
  · by_cases hf : fraction = []
    · subst hf
      rw [decide_eq_false (by simp), List.append_nil] at hm
      obtain ⟨hrun⟩ | _ := hm
      simpa using Constant.ScannedFrom.integer (.decimal hrun) rfl
    · rw [if_pos (.inl hf), List.append_nil]
      rw [decide_eq_true hf] at hm
      exact .float (.fixed hm) (by simp)
  · rw [if_pos (.inr he.ne_nil)]
    exact .float (.decimal hm he) (by simp)

/-! ### Hexadecimal constants -/

/-- The point at the start of `rest` and the hexadecimal digits behind it. -/
def hexFraction (rest : List Char) : List Char :=
  match rest with
  | '.' :: more => '.' :: more.takeWhile isHexDigit
  | _ => []

theorem hexFraction_isPrefix (rest : List Char) : hexFraction rest <+: rest := by
  unfold hexFraction
  split
  · rw [List.prefix_cons_inj]
    exact List.takeWhile_prefix _
  · exact List.nil_prefix

/-- The exponent behind the digits `whole` and the fraction in `rest`, if there is a digit. -/
def hexExponent (whole rest : List Char) : List Char :=
  if whole ≠ [] ∨ 1 < (hexFraction rest).length then
    leadingExponent ['p', 'P'] (rest.drop (hexFraction rest).length)
  else []

/-- The constant with the digits `whole` and its other parts from `rest`. -/
def hexOf (mark whole rest : List Char) : Constant :=
  let body := whole ++ hexFraction rest ++ hexExponent whole rest
  if hexExponent whole rest ≠ [] then
    ⟨mark ++ body ++ leadingFloatSuffix ((whole ++ rest).drop body.length), true⟩
  else if whole ≠ [] then ⟨mark ++ whole ++ leadingIntSuffix rest, false⟩
  else ⟨mark.take 1 ++ leadingIntSuffix (mark.drop 1 ++ (whole ++ rest)), false⟩

theorem hexConstant_eq (mark : List Char) {whole rest : List Char} (hw : ∀ d ∈ whole, isHexDigit d)
    (hr : Stops isHexDigit rest) : hexConstant mark (whole ++ rest) = hexOf mark whole rest := by
  have hwhole := takeWhile_run hw hr
  unfold hexConstant hexOf hexExponent
  simp only [hwhole, List.drop_left]
  rfl

/-- The parts of a hexadecimal number with an exponent make up a floating constant. -/
theorem floatBody_hexExponent {x : Char} {whole rest : List Char} (hx : x = 'x' ∨ x = 'X')
    (hw : ∀ d ∈ whole, isHexDigit d) (he : hexExponent whole rest ≠ []) :
    FloatBody ('0' :: x :: (whole ++ hexFraction rest ++ hexExponent whole rest)) := by
  unfold hexExponent at he ⊢
  split at he
  · rename_i hdigits
    rw [if_pos hdigits]
    have hexp := (leadingExponent_cases ['p', 'P'] _).resolve_left he
    generalize leadingExponent ['p', 'P'] _ = e at hexp
    unfold hexFraction at hdigits ⊢
    split at hdigits
    · refine .ofHex hx (.point (hdigits.imp id ?_) hw fun d hd => List.mem_takeWhile_imp hd) hexp
      intro hlen hnil
      simp [hnil] at hlen
    · rw [List.append_nil]
      exact .ofHex hx (.whole ⟨by simpa using hdigits, hw⟩) hexp
  · exact absurd rfl he

theorem hexExponent_isPrefix (whole rest : List Char) :
    hexExponent whole rest <+: rest.drop (hexFraction rest).length := by
  unfold hexExponent
  split
  · exact leadingExponent_isPrefix _ _
  · exact List.nil_prefix

theorem scanned_hexConstant {x : Char} (hx : x = 'x' ∨ x = 'X') (cs : List Char) :
    (hexConstant ['0', x] cs).ScannedFrom ('0' :: x :: cs) := by
  obtain ⟨whole, rest, rfl, hw, hr⟩ := exists_run isHexDigit cs
  rw [hexConstant_eq _ hw hr]
  unfold hexOf
  simp only []
  split
  · rename_i he
    have hbody := floatBody_hexExponent hx hw he
    obtain ⟨behind, hbehind⟩ :=
      append_isPrefix (hexFraction_isPrefix rest) (hexExponent_isPrefix whole rest)
    generalize hexExponent whole rest = exponent at *
    generalize hexFraction rest = fraction at *
    subst hbehind
    have hdrop : (whole ++ (fraction ++ exponent ++ behind)).drop
        (whole ++ fraction ++ exponent).length = behind := by
      rw [← List.append_assoc, ← List.append_assoc, List.drop_left]
    rw [hdrop]
    exact .float hbody (by simp)
  · split
    · rename_i hne
      exact .integer (.ofHex hx ⟨hne, hw⟩) (by simp)
    · exact .integer (.decimal ⟨by simp, by simp [Char.isDigit]⟩) (by simp)

/-! ### All constants -/

/-- **What the scanner takes** is the body of a constant and the suffix behind it. -/
theorem scanned_leadingConstant {cs : List Char} (h : startsNumber cs = true) :
    (leadingConstant cs).ScannedFrom cs := by
  unfold leadingConstant
  split
  · split
    · rename_i hx
      exact scanned_hexConstant hx.1 _
    · exact scanned_decimalConstant h
  · exact scanned_decimalConstant h

theorem Constant.ScannedFrom.wellFormed {k : Constant} {cs : List Char} (h : k.ScannedFrom cs) :
    k.WellFormed := by
  cases h with
  | integer h => exact .integer h (leadingIntSuffix_mem _)
  | float h => exact .float h (leadingFloatSuffix_mem _)

theorem Constant.ScannedFrom.isPrefix {k : Constant} {cs : List Char} (h : k.ScannedFrom cs) :
    k.text <+: cs := by
  cases h with
  | @integer body rest _ hcs =>
    rw [hcs]
    exact (List.prefix_append_right_inj body).mpr (leadingIntSuffix_isPrefix rest)
  | @float body rest _ hcs =>
    rw [hcs]
    exact (List.prefix_append_right_inj body).mpr (leadingFloatSuffix_isPrefix rest)

/-! ## The scanner takes the whole of a constant -/

/-- The text is empty or starts with a blank that separates tokens. -/
def Separated (rest : List Char) : Prop := ∀ c, rest.head? = some c → isSpace c

theorem Separated.stops {p : Char → Bool} {rest : List Char} (h : Separated rest)
    (hp : p ' ' = false ∧ p '\t' = false ∧ p '\r' = false ∧ p '\n' = false) : Stops p rest := by
  intro c hc
  have hs := h c hc
  simp only [isSpace, Bool.or_eq_true, beq_iff_eq] at hs
  rcases hs with ((rfl | rfl) | rfl) | rfl
  · exact hp.1
  · exact hp.2.1
  · exact hp.2.2.1
  · exact hp.2.2.2

/-- No suffix at the start of the text is longer than the one that is taken. -/
theorem length_le_leadingIntSuffix {s cs : List Char} (hs : s ∈ intSuffixes) (hp : s <+: cs) :
    s.length ≤ (leadingIntSuffix cs).length := by
  have hlengths : ∀ t ∈ intSuffixes, t.length ∈ [3, 2, 1] := by decide
  have hlength := hlengths s hs
  have htest : (decide (s.length ≤ cs.length) && isIntSuffix (cs.take s.length)) = true := by
    rw [Bool.and_eq_true, decide_eq_true_eq, isIntSuffix_iff, ← List.prefix_iff_eq_take.mp hp]
    exact ⟨hp.length_le, hs⟩
  unfold leadingIntSuffix
  split
  · rename_i n hfind
    obtain ⟨hn, longer, shorter, hsplit, hlonger⟩ := List.find?_eq_some_iff_append.mp hfind
    rw [Bool.and_eq_true, decide_eq_true_eq] at hn
    rw [List.length_take_of_le hn.1]
    -- The lengths are tried from the longest to the shortest, and the longer ones have failed.
    have hsorted : [3, 2, 1].Pairwise (· > ·) := by decide
    rw [hsplit] at hlength hsorted
    rcases List.mem_append.mp hlength with hmem | hmem
    · have hfails := hlonger _ hmem
      rw [htest] at hfails
      cases hfails
    · rcases List.mem_cons.mp hmem with heq | hmem
      · exact heq.le
      · exact ((List.pairwise_cons.mp (List.pairwise_append.mp hsorted).2.1).1 _ hmem).le
  · rename_i hfind
    exact absurd htest (List.find?_eq_none.mp hfind _ hlength)

theorem leadingIntSuffix_append {s rest : List Char} (hs : s ∈ [] :: intSuffixes)
    (hr : Separated rest) : leadingIntSuffix (s ++ rest) = s := by
  have hpre := leadingIntSuffix_isPrefix (s ++ rest)
  have hmem := leadingIntSuffix_mem (s ++ rest)
  have hge : s.length ≤ (leadingIntSuffix (s ++ rest)).length := by
    rcases List.mem_cons.mp hs with rfl | hs
    · exact Nat.zero_le _
    · exact length_le_leadingIntSuffix hs (List.prefix_append _ _)
  generalize leadingIntSuffix (s ++ rest) = t at hpre hmem hge
  obtain ⟨more, rfl⟩ := List.prefix_of_prefix_length_le (List.prefix_append s rest) hpre hge
  -- What is taken behind `s` would start with the blank, and no suffix holds one.
  cases more with
  | nil => exact List.append_nil s
  | cons c more =>
    have hc : rest.head? = some c := by
      obtain ⟨behind, h⟩ := (List.prefix_append_right_inj s).mp hpre
      simp [← h]
    have hblank : ∀ t ∈ [] :: intSuffixes, ∀ d ∈ t, isSpace d = false := by
      simp [intSuffixes, isSpace]
    have := hblank _ hmem c (by simp)
    simp [hr c hc] at this

theorem leadingFloatSuffix_append {s rest : List Char} (hs : s ∈ [[], ['f'], ['F'], ['l'], ['L']])
    (hr : Separated rest) : leadingFloatSuffix (s ++ rest) = s := by
  have hnil : leadingFloatSuffix rest = [] := by
    cases rest with
    | nil => rfl
    | cons c rest =>
      have hstop : Stops isFloatSuffix (c :: rest) := hr.stops (by decide)
      simp [leadingFloatSuffix, hstop c rfl]
  simp only [List.mem_cons, List.not_mem_nil, or_false] at hs
  rcases hs with rfl | rfl | rfl | rfl | rfl
  · exact hnil
  all_goals rfl

theorem leadingExponent_of_stops {marks cs : List Char} (h : Stops (· ∈ marks) cs) :
    leadingExponent marks cs = [] := by
  cases cs with
  | nil => rfl
  | cons m cs =>
    have hm : m ∉ marks := by simpa using h m rfl
    simp [leadingExponent, hm]

theorem leadingExponent_append {marks e rest : List Char} (he : Exponent marks e)
    (hr : Stops Char.isDigit rest) : leadingExponent marks (e ++ rest) = e := by
  obtain ⟨hm, hs, hne, hd⟩ := he
  rename_i m sign ds
  have hsign : leadingSign (sign ++ (ds ++ rest)) = sign := by
    simp only [List.mem_cons, List.not_mem_nil, or_false] at hs
    rcases hs with rfl | rfl | rfl
    · cases ds with
      | nil => exact absurd rfl hne
      | cons d ds =>
        have hdigit := hd d (by simp)
        have hplus : d ≠ '+' := by rintro rfl; simp [Char.isDigit] at hdigit
        have hminus : d ≠ '-' := by rintro rfl; simp [Char.isDigit] at hdigit
        simp [leadingSign, hplus, hminus]
    · rfl
    · rfl
  have hdigits := takeWhile_run hd hr
  simp only [List.cons_append, List.append_assoc, leadingExponent, hsign, List.drop_left, hdigits]
  rw [if_pos ⟨hm, hne⟩]

/-- What stops a run at the start of every suffix and at a blank stops it where a suffix may stand. -/
theorem stops_suffix {p : Char → Bool} {suffixes : List (List Char)} {s rest : List Char}
    (hs : s ∈ [] :: suffixes) (hr : s = [] → Separated rest) (hp : ∀ t ∈ suffixes, Stops p t)
    (hb : p ' ' = false ∧ p '\t' = false ∧ p '\r' = false ∧ p '\n' = false) :
    Stops p (s ++ rest) := by
  cases s with
  | nil => exact (hr rfl).stops hb
  | cons c s =>
    have hmem : c :: s ∈ suffixes := by simpa using hs
    exact .cons (hp _ hmem c rfl) _

/-- The mantissa of a decimal number is taken whole if the text behind it does not continue it. -/
theorem decimalConstant_mantissa {m tail : List Char} {point : Bool}
    (hm : Mantissa Char.isDigit m point) (hd : Stops Char.isDigit tail)
    (hp : point = false → Stops (· == '.') tail) :
    ∃ whole fraction, m = whole ++ fraction ∧ (fraction ≠ [] ↔ point = true) ∧
      decimalConstant (m ++ tail) = decimalOf whole fraction tail := by
  cases hm with
  | whole h =>
    refine ⟨m, [], (List.append_nil m).symm, by simp, ?_⟩
    have hf : decimalFraction m tail = [] := by
      cases tail with
      | nil => rfl
      | cons c tail =>
        have hc : c ≠ '.' := by simpa using hp rfl c rfl
        simp [decimalFraction, hc]
    rw [decimalConstant_eq h.2 hd, hf]
    rfl
  | @point as bs hne ha hb =>
    refine ⟨as, '.' :: bs, rfl, by simp, ?_⟩
    have hf : decimalFraction as ('.' :: (bs ++ tail)) = '.' :: bs := by
      simp only [decimalFraction, takeWhile_run hb hd]
      rw [if_pos hne.symm]
    rw [List.append_assoc, List.cons_append, decimalConstant_eq ha (.cons (by decide) _), hf]
    simp

theorem decimalConstant_integer {ds tail : List Char} (h : IsRun Char.isDigit ds)
    (hd : Stops Char.isDigit tail) (hp : Stops (· == '.') tail)
    (he : Stops (· ∈ ['e', 'E']) tail) :
    decimalConstant (ds ++ tail) = ⟨ds ++ leadingIntSuffix tail, false⟩ := by
  obtain ⟨whole, fraction, rfl, hf, heq⟩ := decimalConstant_mantissa (.whole h) hd fun _ => hp
  have hnil : fraction = [] := by simpa using hf
  rw [heq, decimalOf, leadingExponent_of_stops he, if_neg (by simp [hnil]), List.length_nil,
    List.drop_zero, List.append_nil]

theorem Exponent.stops {p : Char → Bool} {marks e : List Char} (he : Exponent marks e)
    (hp : marks.all (fun m => !p m) = true) (rest : List Char) : Stops p (e ++ rest) := by
  obtain ⟨hm, -, -⟩ := he
  exact .cons (by simpa using List.all_eq_true.mp hp _ hm) _

theorem decimalConstant_fixed {m tail : List Char} (hm : Mantissa Char.isDigit m true)
    (hd : Stops Char.isDigit tail) (he : Stops (· ∈ ['e', 'E']) tail) :
    decimalConstant (m ++ tail) = ⟨m ++ leadingFloatSuffix tail, true⟩ := by
  obtain ⟨whole, fraction, rfl, hf, heq⟩ := decimalConstant_mantissa hm hd (by simp)
  rw [heq, decimalOf, leadingExponent_of_stops he, if_pos (.inl (hf.mpr rfl)), List.length_nil,
    List.drop_zero, List.append_nil]

theorem decimalConstant_exponent {m e tail : List Char} {point : Bool}
    (hm : Mantissa Char.isDigit m point) (he : Exponent ['e', 'E'] e)
    (hd : Stops Char.isDigit tail) :
    decimalConstant (m ++ (e ++ tail)) = ⟨m ++ e ++ leadingFloatSuffix tail, true⟩ := by
  obtain ⟨whole, fraction, rfl, -, heq⟩ := decimalConstant_mantissa hm
    (he.stops (by decide) tail) fun _ => he.stops (by decide) tail
  rw [heq, decimalOf, leadingExponent_append he hd, if_pos (.inr he.ne_nil), List.drop_left]

theorem hexFraction_of_stops {tail : List Char} (hp : Stops (· == '.') tail) :
    hexFraction tail = [] := by
  cases tail with
  | nil => rfl
  | cons c tail =>
    have hc : c ≠ '.' := by simpa using hp c rfl
    simp [hexFraction, hc]

theorem hexConstant_integer {mark ds tail : List Char} (h : IsRun isHexDigit ds)
    (hd : Stops isHexDigit tail) (hp : Stops (· == '.') tail) (he : Stops (· ∈ ['p', 'P']) tail) :
    hexConstant mark (ds ++ tail) = ⟨mark ++ ds ++ leadingIntSuffix tail, false⟩ := by
  have hexp : hexExponent ds tail = [] := by
    rw [hexExponent, if_pos (.inl h.1), hexFraction_of_stops hp]
    exact leadingExponent_of_stops he
  rw [hexConstant_eq _ h.2 hd, hexOf, hexp, if_neg (by simp), if_pos h.1]

theorem hexConstant_exponent {mark m e tail : List Char} {point : Bool}
    (hm : Mantissa isHexDigit m point) (he : Exponent ['p', 'P'] e)
    (hd : Stops Char.isDigit tail) :
    hexConstant mark (m ++ (e ++ tail)) = ⟨mark ++ (m ++ e) ++ leadingFloatSuffix tail, true⟩ := by
  have hexp := leadingExponent_append he hd
  cases hm with
  | whole h =>
    have hf := hexFraction_of_stops (he.stops (by decide) tail)
    have hx : hexExponent m (e ++ tail) = e := by
      rw [hexExponent, if_pos (.inl h.1), hf]
      exact hexp
    rw [hexConstant_eq _ h.2 (he.stops (by decide) _), hexOf, hx, hf, if_pos he.ne_nil,
      List.append_nil, ← List.append_assoc m, List.drop_left]
  | @point as bs hne ha hb =>
    have hf : hexFraction ('.' :: (bs ++ (e ++ tail))) = '.' :: bs := by
      rw [hexFraction, takeWhile_run hb (he.stops (by decide) _)]
    have hx : hexExponent as ('.' :: (bs ++ (e ++ tail))) = e := by
      have hdigit : as ≠ [] ∨ 1 < ('.' :: bs).length := by
        refine hne.imp id fun hbs => ?_
        simpa using List.length_pos_iff.mpr hbs
      rw [hexExponent, hf, if_pos hdigit]
      simpa using hexp
    have hdrop : (as ++ '.' :: (bs ++ (e ++ tail))).drop (as ++ '.' :: bs ++ e).length = tail := by
      rw [show as ++ '.' :: (bs ++ (e ++ tail)) = as ++ '.' :: bs ++ e ++ tail by simp,
        List.drop_left]
    rw [List.append_assoc, List.cons_append, hexConstant_eq _ ha (.cons (by decide) _), hexOf, hx,
      hf, if_pos he.ne_nil, hdrop]

/-! ### The choice between decimal and hexadecimal -/

/-- `c` marks a hexadecimal number. -/
def isHexMark (c : Char) : Bool := c == 'x' || c == 'X'

/-- A number without a hexadecimal mark is decimal; a single digit has to be cut off, as a mark could
follow it. -/
theorem leadingConstant_decimal {t rest : List Char} (hne : t ≠ [])
    (h : ∀ c ∈ t, isHexMark c = false) (hr : t.length < 2 → Separated rest) :
    leadingConstant (t ++ rest) = decimalConstant (t ++ rest) := by
  cases t with
  | nil => exact absurd rfl hne
  | cons a t =>
    have hstop : Stops isHexMark (t ++ rest) := by
      cases t with
      | nil => exact (hr (by simp)).stops (by decide)
      | cons b t => exact .cons (h b (by simp)) _
    unfold leadingConstant
    split
    · rename_i heq
      rw [List.cons_append, List.cons.injEq] at heq
      rw [heq.2] at hstop
      have hx := hstop _ rfl
      rw [if_neg]
      rintro ⟨hx' | hx', -⟩ <;> simp [isHexMark, hx'] at hx
    · rfl

theorem leadingConstant_hex {x : Char} (hx : x = 'x' ∨ x = 'X') {cs : List Char}
    (h : ∃ c, cs.head? = some c ∧ (isHexDigit c = true ∨ c = '.')) :
    leadingConstant ('0' :: x :: cs) = hexConstant ['0', x] cs := by
  obtain ⟨c, hc, hd⟩ := h
  cases cs with
  | nil => cases hc
  | cons d cs =>
    obtain rfl : d = c := by simpa using hc
    simp only [leadingConstant]
    rw [if_pos ⟨hx, hd⟩]

theorem isHexMark_of_isDigit {c : Char} (h : c.isDigit) : isHexMark c = false := by
  rw [Bool.eq_false_iff]
  intro hx
  simp only [isHexMark, Bool.or_eq_true, beq_iff_eq] at hx
  rcases hx with rfl | rfl <;> simp [Char.isDigit] at h

/-- What holds of the digits and of the point holds of a mantissa. -/
theorem Mantissa.forall_mem {digit : Char → Bool} {m : List Char} {point : Bool} {p : Char → Prop}
    (hm : Mantissa digit m point) (hdigit : ∀ c, digit c → p c) (hpoint : p '.') :
    ∀ c ∈ m, p c := by
  intro c hc
  cases hm with
  | whole h => exact hdigit c (h.2 c hc)
  | point hne ha hb =>
    rcases List.mem_append.mp hc with hc | hc
    · exact hdigit c (ha c hc)
    · rcases List.mem_cons.mp hc with rfl | hc
      · exact hpoint
      · exact hdigit c (hb c hc)

theorem Mantissa.ne_nil {digit : Char → Bool} {m : List Char} {point : Bool}
    (hm : Mantissa digit m point) : m ≠ [] := by
  cases hm with
  | whole h => exact h.1
  | point => simp

/-- What holds of the marks, the signs and the digits holds of an exponent. -/
theorem Exponent.forall_mem {marks e : List Char} {p : Char → Prop} (he : Exponent marks e)
    (hmarks : ∀ c ∈ marks, p c) (hsigns : p '+' ∧ p '-') (hdigit : ∀ c, c.isDigit → p c) :
    ∀ c ∈ e, p c := by
  obtain ⟨hm, hs, hd⟩ := he
  intro c hc
  rcases List.mem_cons.mp hc with rfl | hc
  · exact hmarks _ hm
  · rcases List.mem_append.mp hc with hc | hc
    · simp only [List.mem_cons, List.not_mem_nil, or_false] at hs
      rcases hs with rfl | rfl | rfl
      · cases hc
      · exact List.mem_singleton.mp hc ▸ hsigns.1
      · exact List.mem_singleton.mp hc ▸ hsigns.2
    · exact hdigit c (hd.2 c hc)

theorem Mantissa.not_hexMark {m : List Char} {point : Bool} (hm : Mantissa Char.isDigit m point) :
    ∀ c ∈ m, isHexMark c = false :=
  hm.forall_mem (fun _ => isHexMark_of_isDigit) (by decide)

theorem Exponent.not_hexMark {e : List Char} (he : Exponent ['e', 'E'] e) :
    ∀ c ∈ e, isHexMark c = false :=
  he.forall_mem (by simp [isHexMark]) (by decide) fun _ => isHexMark_of_isDigit

theorem Mantissa.head {m : List Char} {point : Bool} (hm : Mantissa isHexDigit m point)
    (rest : List Char) :
    ∃ c, (m ++ rest).head? = some c ∧ (isHexDigit c = true ∨ c = '.') := by
  cases hm with
  | whole h =>
    cases m with
    | nil => exact absurd rfl h.1
    | cons c m => exact ⟨c, rfl, .inl (h.2 c (by simp))⟩
  | @point as bs hne ha hb =>
    cases as with
    | nil => exact ⟨'.', rfl, .inr rfl⟩
    | cons c as => exact ⟨c, rfl, .inl (ha c (by simp))⟩

theorem FloatBody.two_le_length {body : List Char} (h : FloatBody body) : 2 ≤ body.length := by
  cases h with
  | fixed hm =>
    cases hm with
    | point hne =>
      have hpos := hne.imp List.length_pos_iff.mpr List.length_pos_iff.mpr
      rw [List.length_append, List.length_cons]
      omega
  | decimal hm he =>
    have hpos := List.length_pos_iff.mpr hm.ne_nil
    have hpos' := List.length_pos_iff.mpr he.ne_nil
    rw [List.length_append]
    omega
  | hex => simp

/-- The digits of an integer are taken whole in front of a suffix, or of what cuts them off. -/
theorem leadingConstant_integer {body s rest : List Char} (h : IntBody body)
    (hs : s ∈ [] :: intSuffixes) (hr : s = [] → Separated rest) :
    leadingConstant (body ++ (s ++ rest)) = ⟨body ++ leadingIntSuffix (s ++ rest), false⟩ := by
  cases h with
  | decimal hd =>
    have hmark : ∀ s ∈ [] :: intSuffixes, ∀ c ∈ s, isHexMark c = false := by
      simp [intSuffixes, isHexMark]
    have hpos := List.length_pos_iff.mpr hd.1
    rw [← List.append_assoc, leadingConstant_decimal (by simp [hd.1]) (fun c hc => ?_) fun hlen => ?_,
      List.append_assoc]
    · exact decimalConstant_integer hd (stops_suffix hs hr (by decide) (by decide))
        (stops_suffix hs hr (by decide) (by decide)) (stops_suffix hs hr (by decide) (by decide))
    · exact (List.mem_append.mp hc).elim (fun h => isHexMark_of_isDigit (hd.2 c h)) (hmark _ hs c)
    · rw [List.length_append] at hlen
      exact hr (List.length_eq_zero_iff.mp (by omega))
  | @hex x ds hx hd =>
    rw [isHexDigit_eq] at hd
    have hhead := (Mantissa.whole hd).head (s ++ rest)
    rw [List.cons_append, List.cons_append, leadingConstant_hex hx hhead]
    exact hexConstant_integer hd (stops_suffix hs hr (by decide) (by decide))
      (stops_suffix hs hr (by decide) (by decide)) (stops_suffix hs hr (by decide) (by decide))

/-- The body of a floating constant is taken whole in front of a suffix, or of what cuts it off. -/
theorem leadingConstant_float {body s rest : List Char} (h : FloatBody body)
    (hs : s ∈ [[], ['f'], ['F'], ['l'], ['L']]) (hr : s = [] → Separated rest) :
    leadingConstant (body ++ (s ++ rest)) = ⟨body ++ leadingFloatSuffix (s ++ rest), true⟩ := by
  have hdigit : Stops Char.isDigit (s ++ rest) := stops_suffix hs hr (by decide) (by decide)
  have hbody := h.two_le_length
  cases h with
  | fixed hm =>
    rw [leadingConstant_decimal hm.ne_nil hm.not_hexMark (by omega)]
    exact decimalConstant_fixed hm hdigit (stops_suffix hs hr (by decide) (by decide))
  | decimal hm he =>
    rw [leadingConstant_decimal (by simp [hm.ne_nil]) (fun c hc => ?_) (by omega), List.append_assoc]
    · exact decimalConstant_exponent hm he hdigit
    · exact (List.mem_append.mp hc).elim (hm.not_hexMark c) (he.not_hexMark c)
  | @hex x m e point hx hm he =>
    rw [isHexDigit_eq] at hm
    have hhead := hm.head (e ++ (s ++ rest))
    rw [List.cons_append, List.cons_append, List.append_assoc, leadingConstant_hex hx hhead]
    exact hexConstant_exponent hm he hdigit

/-- **A constant is scanned whole.** In front of a blank or of the end, the scanner takes exactly the
constant and finds its kind. -/
theorem leadingConstant_append {k : Constant} (h : k.WellFormed) {rest : List Char}
    (hr : Separated rest) : leadingConstant (k.text ++ rest) = k := by
  cases h with
  | integer hbody hs =>
    rw [List.append_assoc, leadingConstant_integer hbody hs fun _ => hr,
      leadingIntSuffix_append hs hr]
  | float hbody hs =>
    rw [List.append_assoc, leadingConstant_float hbody hs fun _ => hr,
      leadingFloatSuffix_append hs hr]

end IntervalSuite.Itl
