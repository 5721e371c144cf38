import IntervalSuite.Text.Blank
import Mathlib.Data.List.TakeWhile

/-!
# Blanks

Among the characters of ASCII, only the space and some control characters are blank; so no letter, digit
or mark of punctuation is. Trimming takes the blanks off the ends of a text.

* `isBlank_of_word`: the characters of identifiers are not blank.
* `exists_trimChars`, `trimChars_padded`: a text and its trimmed form.
-/

namespace IntervalSuite.Text

theorem toNat_of_isBlank {c : Char} (h : isBlank c) : c.toNat ≤ 32 ∨ 133 ≤ c.toNat := by
  simp only [isBlank, inRanges, blankRanges, List.any_eq_true, Bool.and_eq_true, decide_eq_true_eq,
    List.mem_cons, List.not_mem_nil, or_false] at h
  obtain ⟨r, hr, hlo, hhi⟩ := h
  rcases hr with rfl | rfl | rfl | rfl | rfl | rfl | rfl | rfl | rfl | rfl <;> omega

/-- The characters of identifiers are not blank. -/
theorem isBlank_of_word {c : Char} (h : c.isAlphanum || c == '_') : isBlank c = false := by
  have hrange : 48 ≤ c.toNat ∧ c.toNat ≤ 122 := by
    rw [Bool.or_eq_true] at h
    rcases h with h | h
    · change (decide (65 ≤ c.val ∧ c.val ≤ 90) ||
        (decide (97 ≤ c.val) && decide (c.val ≤ 122)) ||
        (decide (48 ≤ c.val) && decide (c.val ≤ 57))) = true at h
      simp only [Bool.or_eq_true, Bool.and_eq_true, decide_eq_true_eq,
        UInt32.le_iff_toNat_le] at h
      change ((65 ≤ c.toNat ∧ c.toNat ≤ 90) ∨ (97 ≤ c.toNat ∧ c.toNat ≤ 122)) ∨
        (48 ≤ c.toNat ∧ c.toNat ≤ 57) at h
      omega
    · rw [beq_iff_eq.mp h]
      decide
  rw [Bool.eq_false_iff]
  intro hblank
  have := toNat_of_isBlank hblank
  omega

/-! ## Blanks around a text -/

theorem trimChars_append_left {p : List Char} (hp : ∀ c ∈ p, isBlank c) (cs : List Char) :
    trimChars (p ++ cs) = trimChars cs := by
  unfold trimChars
  rw [List.dropWhile_append_of_pos hp]

theorem trimChars_append_right {q : List Char} (hq : ∀ c ∈ q, isBlank c) (cs : List Char) :
    trimChars (cs ++ q) = trimChars cs := by
  have hrev : ∀ c ∈ q.reverse, isBlank c := fun c hc => hq c (List.mem_reverse.mp hc)
  unfold trimChars
  rw [List.dropWhile_append]
  split
  · rename_i hempty
    rw [List.isEmpty_iff.mp hempty, List.dropWhile_eq_nil_iff.mpr hq]
  · rw [List.reverse_append, List.dropWhile_append_of_pos hrev]

theorem trimChars_padded {p q : List Char} (hp : ∀ c ∈ p, isBlank c) (hq : ∀ c ∈ q, isBlank c)
    (cs : List Char) : trimChars (p ++ (cs ++ q)) = trimChars cs := by
  rw [trimChars_append_left hp, trimChars_append_right hq]

/-- A text is its trimmed form with blanks around it. -/
theorem exists_trimChars (cs : List Char) :
    ∃ p q, cs = p ++ (trimChars cs ++ q) ∧ (∀ c ∈ p, isBlank c) ∧ ∀ c ∈ q, isBlank c := by
  refine ⟨cs.takeWhile isBlank, ((cs.dropWhile isBlank).reverse.takeWhile isBlank).reverse, ?_,
    fun _ hc => List.mem_takeWhile_imp hc,
    fun _ hc => List.mem_takeWhile_imp (List.mem_reverse.mp hc)⟩
  rw [trimChars, ← List.reverse_append, List.takeWhile_append_dropWhile, List.reverse_reverse,
    List.takeWhile_append_dropWhile]

end IntervalSuite.Text
