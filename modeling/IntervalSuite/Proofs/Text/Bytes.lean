import Mathlib.Data.String.Basic

/-!
# The bytes of a text

Texts are compared by their characters, and UTF-8 keeps that order: a character with a greater number
has a greater code, byte by byte, and no code is the start of another one.

* `Coding`: codes in the order of the numbers that they stand for. A continuation byte is a digit to
  the base 64 (`Coding.digit`), and longer codes start with greater bytes (`Coding.glue`).
* `utf8_lt_iff`: texts are ordered as their bytes are.
-/

namespace IntervalSuite.Text

/-- The bytes of a text in UTF-8. -/
def utf8 (s : String) : List UInt8 := s.toByteArray.data.toList

theorem utf8_eq (s : String) : utf8 s = s.toList.flatMap String.utf8EncodeChar := by
  rw [utf8, ← String.utf8Encode_toList, List.utf8Encode, List.data_toByteArray]

theorem length_utf8 (s : String) : (utf8 s).length = s.utf8ByteSize := by
  rw [utf8, Array.length_toList]
  rfl

/-! ## Codes of characters -/

theorem cons_lt_cons_ofNat {m n : Nat} (h : m < n) (hn : n < 256) (xs ys : List UInt8) :
    UInt8.ofNat m :: xs < UInt8.ofNat n :: ys := by
  refine List.cons_lt_cons_iff.mpr (.inl ?_)
  rw [UInt8.lt_iff_toNat_lt, UInt8.toNat_ofNat', UInt8.toNat_ofNat']
  omega

/-- Below `bound`, a code starts with a byte from `lo` on and below `hi`, and the code of a smaller
number comes first, whatever follows the two codes. -/
structure Coding (lo hi bound : Nat) (code : Nat → List UInt8) : Prop where
  le_bytes : hi ≤ 256
  lead : ∀ v < bound, ∃ x rest, code v = UInt8.ofNat x :: rest ∧ lo ≤ x ∧ x < hi
  ordered : ∀ v w, v < w → w < bound → ∀ xs ys, code v ++ xs < code w ++ ys

namespace Coding

/-- A code of one byte. -/
theorem single {lo hi bound : Nat} {f : Nat → Nat} (hhi : hi ≤ 256)
    (hf : ∀ v < bound, lo ≤ f v ∧ f v < hi) (hmono : ∀ v w, v < w → w < bound → f v < f w) :
    Coding lo hi bound fun v => [UInt8.ofNat (f v)] := by
  refine ⟨hhi, fun v hv => ⟨f v, [], rfl, hf v hv⟩, fun v w hlt hw xs ys => ?_⟩
  have hlast := (hf w hw).2
  exact cons_lt_cons_ofNat (hmono v w hlt hw) (by omega) xs ys

/-- A continuation byte adds a digit to the base 64. -/
theorem digit {lo hi bound : Nat} {code : Nat → List UInt8} (h : Coding lo hi bound code) :
    Coding lo hi (bound * 64) fun v => code (v / 64) ++ [UInt8.ofNat (v % 64 + 0x80)] := by
  refine ⟨h.le_bytes, fun v hv => ?_, fun v w hlt hw xs ys => ?_⟩
  · obtain ⟨x, rest, hcode, hx⟩ := h.lead (v / 64) (by omega)
    exact ⟨x, rest ++ _, by rw [hcode, List.cons_append], hx⟩
  · rw [List.append_assoc, List.append_assoc]
    by_cases hfront : v / 64 < w / 64
    · exact h.ordered _ _ hfront (by omega) _ _
    · have heq : v / 64 = w / 64 := by omega
      rw [heq]
      exact List.append_left_lt (cons_lt_cons_ofNat (by omega) (by omega) _ _)

/-- The numbers up to `last` have shorter codes, whose first bytes are smaller. -/
theorem glue {lo mid hi last bound : Nat} {short long : Nat → List UInt8}
    (hshort : Coding lo mid (last + 1) short) (hlong : Coding mid hi bound long) :
    Coding lo hi bound fun v => if v ≤ last then short v else long v := by
  have hbytes := hlong.le_bytes
  refine ⟨hbytes, fun v hv => ?_, fun v w hlt hw xs ys => ?_⟩
  · obtain ⟨x, rest, hx, hlo, hmid⟩ := hshort.lead (min v last) (by omega)
    obtain ⟨y, rest', hy, hmid', hhi⟩ := hlong.lead v hv
    split
    · rename_i hv'
      rw [Nat.min_eq_left hv'] at hx
      exact ⟨x, rest, hx, hlo, by omega⟩
    · exact ⟨y, rest', hy, by omega, hhi⟩
  · by_cases hw' : w ≤ last
    · rw [if_pos hw', if_pos (by omega)]
      exact hshort.ordered v w hlt (by omega) xs ys
    · rw [if_neg hw']
      by_cases hv : v ≤ last
      · obtain ⟨x, rest, hx, -, hmid⟩ := hshort.lead v (by omega)
        obtain ⟨y, rest', hy, hmid', hhi⟩ := hlong.lead w hw
        rw [if_pos hv, hx, hy]
        exact cons_lt_cons_ofNat (by omega) (by omega) _ _
      · rw [if_neg hv]
        exact hlong.ordered v w hlt hw xs ys

end Coding

/-- The codes of one to four bytes. -/
theorem coding_utf8 :
    Coding 0 0xf8 0x200000 fun v =>
      if v ≤ 0x7f then [UInt8.ofNat v]
      else if v ≤ 0x7ff then [UInt8.ofNat (v / 64 % 0x20 + 0xc0), UInt8.ofNat (v % 0x40 + 0x80)]
      else if v ≤ 0xffff then
        [UInt8.ofNat (v / 4096 % 0x10 + 0xe0), UInt8.ofNat (v / 64 % 0x40 + 0x80),
          UInt8.ofNat (v % 0x40 + 0x80)]
      else
        [UInt8.ofNat (v / 262144 % 0x08 + 0xf0), UInt8.ofNat (v / 4096 % 0x40 + 0x80),
          UInt8.ofNat (v / 64 % 0x40 + 0x80), UInt8.ofNat (v % 0x40 + 0x80)] := by
  have hone : Coding 0 0xc0 0x80 fun v => [UInt8.ofNat v] :=
    .single (by decide) (by omega) (by omega)
  have htwo : Coding 0xc0 0xe0 0x20 fun v => [UInt8.ofNat (v % 0x20 + 0xc0)] :=
    .single (by decide) (by omega) (by omega)
  have hthree : Coding 0xe0 0xf0 0x10 fun v => [UInt8.ofNat (v % 0x10 + 0xe0)] :=
    .single (by decide) (by omega) (by omega)
  have hfour : Coding 0xf0 0xf8 0x08 fun v => [UInt8.ofNat (v % 0x08 + 0xf0)] :=
    .single (by decide) (by omega) (by omega)
  have hall := hone.glue (htwo.digit.glue (hthree.digit.digit.glue hfour.digit.digit.digit))
  simpa only [Nat.div_div_eq_div_mul, List.cons_append, List.nil_append] using hall

theorem utf8EncodeChar_lt {c d : Char} (h : c < d) (xs ys : List UInt8) :
    String.utf8EncodeChar c ++ xs < String.utf8EncodeChar d ++ ys := by
  have hlast : d.val.toNat < 0x200000 := by
    rcases d.valid with hvalid | hvalid
    · exact Nat.lt_trans hvalid (by decide)
    · exact Nat.lt_trans hvalid.2 (by decide)
  exact coding_utf8.ordered c.val.toNat d.val.toNat h hlast xs ys

/-! ## Texts -/

theorem exists_cons_of_lt {α : Type} [LT α] {xs ys : List α} (h : xs < ys) :
    ∃ y rest, ys = y :: rest := by
  refine List.exists_cons_of_ne_nil ?_
  rintro rfl
  exact List.not_lt_nil _ h

theorem flatMap_utf8_lt {cs ds : List Char} (h : cs < ds) :
    cs.flatMap String.utf8EncodeChar < ds.flatMap String.utf8EncodeChar := by
  induction cs generalizing ds with
  | nil =>
    obtain ⟨d, ds, rfl⟩ := exists_cons_of_lt h
    obtain ⟨x, xs, hx⟩ := List.exists_cons_of_ne_nil (String.utf8EncodeChar_ne_nil (c := d))
    rw [List.flatMap_cons, hx]
    exact List.nil_lt_cons _ _
  | cons c cs ih =>
    obtain ⟨d, ds, rfl⟩ := exists_cons_of_lt h
    rw [List.flatMap_cons, List.flatMap_cons]
    obtain hlt | ⟨rfl, hlt⟩ := List.cons_lt_cons_iff.mp h
    · exact utf8EncodeChar_lt hlt _ _
    · exact List.append_left_lt (ih hlt)

/-- **Texts are ordered as their bytes are.** -/
theorem utf8_lt_iff {s t : String} : utf8 s < utf8 t ↔ s < t := by
  have hmono : ∀ {s t : String}, s < t → utf8 s < utf8 t := by
    intro s t h
    rw [utf8_eq, utf8_eq]
    exact flatMap_utf8_lt h
  refine ⟨fun h => ?_, hmono⟩
  rcases lt_trichotomy s t with hlt | rfl | hgt
  · exact hlt
  · exact absurd h (List.lt_irrefl _)
  · exact absurd h (List.lt_asymm (hmono hgt))

end IntervalSuite.Text
