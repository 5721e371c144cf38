import IntervalSuite.Specification.Wildcard
import IntervalSuite.Proofs.Text.Search

/-!
# What wildcards match

A key matches a signature if some choice of texts for its wildcards makes it a prefix of the
signature. The search for its segments commits to the first occurrence of each of them; this loses
no match, since what a later occurrence leaves over is also left over by the first one, and the next
wildcard can take what lies between.

* `inOrder_iff_spread`: the search from left to right finds the segments if they are there.
* `wildcardMatches_iff`: a key matches exactly if its wildcards can be filled.
-/

namespace IntervalSuite.Wildcard

open Text

/-! ## Segments in a text -/

/-- The segments, each with the text for the wildcard in front of it: `w₁ s₁ … wₖ sₖ`. -/
def gapped (texts segments : List (List Char)) : List Char :=
  (texts.zipWith (· ++ ·) segments).flatten

@[simp] theorem gapped_cons (text segment : List Char) (texts segments : List (List Char)) :
    gapped (text :: texts) (segment :: segments) = text ++ segment ++ gapped texts segments := by
  simp [gapped]

/-- The segments occur in the text one behind the other, with any texts in front of them. -/
def Spread (segments : List (List Char)) (text : List Char) : Prop :=
  ∃ texts rest, texts.length = segments.length ∧ text = gapped texts segments ++ rest

theorem spread_nil (text : List Char) : Spread [] text := ⟨[], text, rfl, rfl⟩

theorem spread_cons_iff {segment text : List Char} {segments : List (List Char)} :
    Spread (segment :: segments) text ↔
      ∃ before after, text = before ++ segment ++ after ∧ Spread segments after := by
  constructor
  · rintro ⟨texts, rest, hlength, rfl⟩
    obtain ⟨before, texts, rfl⟩ := List.exists_cons_of_length_eq_add_one hlength
    exact ⟨before, gapped texts segments ++ rest, by simp, texts, rest, by simpa using hlength, rfl⟩
  · rintro ⟨before, _, rfl, texts, rest, hlength, rfl⟩
    exact ⟨before :: texts, rest, by simp [hlength], by simp⟩

/-- A text can be longer at its start, where the first wildcard takes what is more. -/
theorem Spread.of_suffix {segments : List (List Char)} {short long : List Char}
    (h : Spread segments short) (hsuffix : short <:+ long) : Spread segments long := by
  cases segments with
  | nil => exact spread_nil long
  | cons segment segments =>
    obtain ⟨more, rfl⟩ := hsuffix
    obtain ⟨before, after, rfl, hafter⟩ := spread_cons_iff.mp h
    exact spread_cons_iff.mpr ⟨more ++ before, after, by simp, hafter⟩

/-- **No backtracking is needed.** The search from left to right finds the segments if they occur one
behind the other at all. -/
theorem inOrder_iff_spread {segments : List (List Char)} {text : List Char} :
    inOrder segments text ↔ Spread segments text := by
  induction segments generalizing text with
  | nil => exact ⟨fun _ => spread_nil text, fun _ => rfl⟩
  | cons segment segments ih =>
    rw [spread_cons_iff, inOrder]
    constructor
    · intro h
      split at h
      · rename_i after hafter
        obtain ⟨before, hbefore⟩ := append_of_dropThrough? hafter
        exact ⟨before, after, hbefore.symm, ih.mp h⟩
      · cases h
    · rintro ⟨before, after, rfl, hspread⟩
      -- The first occurrence may be an earlier one; it leaves more for the other segments.
      obtain ⟨rest, hrest, hsuffix⟩ := exists_dropThrough? before segment after
      rw [hrest]
      exact ih.mpr (hspread.of_suffix hsuffix)

/-! ## Patterns -/

/-- A pattern with the pieces `first` and `segments` between its wildcards. -/
theorem matchesChars_iff {pattern text first : List Char} {segments : List (List Char)}
    (hsplit : pattern.splitOn '*' = first :: segments) :
    matchesChars pattern text ↔
      ∃ texts rest, texts.length = segments.length ∧
        text = first ++ gapped texts segments ++ rest := by
  rw [matchesChars, hsplit]
  dsimp only
  constructor
  · intro h
    split at h
    · rename_i behind hbehind
      obtain ⟨texts, rest, hlength, rfl⟩ := inOrder_iff_spread.mp h
      refine ⟨texts, rest, hlength, ?_⟩
      rw [← List.isPrefixOf?_eq_some_iff_append_eq.mp hbehind, List.append_assoc]
    · cases h
  · rintro ⟨texts, rest, hlength, rfl⟩
    have hfront : first.isPrefixOf? (first ++ gapped texts segments ++ rest) =
        some (gapped texts segments ++ rest) := by
      rw [List.isPrefixOf?_eq_some_iff_append_eq, List.append_assoc]
    simp only [hfront]
    exact inOrder_iff_spread.mpr ⟨texts, rest, hlength, rfl⟩

/-- The pattern with a text in the place of each wildcard; a wildcard without a text stays. -/
def instantiate : List Char → List (List Char) → List Char
  | [], _ => []
  | '*' :: cs, text :: texts => text ++ instantiate cs texts
  | c :: cs, texts => c :: instantiate cs texts

theorem instantiate_cons {c : Char} (hc : c ≠ '*') (cs : List Char) (texts : List (List Char)) :
    instantiate (c :: cs) texts = c :: instantiate cs texts := by
  cases texts <;> simp [instantiate, hc]

/-- A pattern has one wildcard less than pieces, and stands for its pieces with the texts of the
wildcards between them. -/
theorem pieces_spec {pattern first : List Char} {segments : List (List Char)}
    (hsplit : pattern.splitOn '*' = first :: segments) :
    pattern.count '*' = segments.length ∧
      ∀ texts, texts.length = segments.length →
        instantiate pattern texts = first ++ gapped texts segments := by
  induction pattern generalizing first segments with
  | nil =>
    obtain ⟨rfl, rfl⟩ : [] = first ∧ [] = segments := by simpa using hsplit
    refine ⟨rfl, fun texts hlength => ?_⟩
    rw [List.length_eq_zero_iff.mp hlength]
    rfl
  | cons c cs ih =>
    obtain ⟨next, others, hcs⟩ := List.exists_cons_of_ne_nil (List.splitOn_ne_nil '*' cs)
    obtain ⟨hcount, hinstantiate⟩ := ih hcs
    rw [List.splitOn_cons_eq_if_modifyHead, hcs] at hsplit
    by_cases hc : c = '*'
    · subst hc
      obtain ⟨rfl, rfl⟩ : [] = first ∧ next :: others = segments := by simpa using hsplit
      refine ⟨by simp [hcount], fun texts hlength => ?_⟩
      obtain ⟨text, texts, rfl⟩ := List.exists_cons_of_length_eq_add_one hlength
      rw [instantiate, hinstantiate texts (by simpa using hlength), gapped_cons]
      simp
    · obtain ⟨rfl, rfl⟩ : c :: next = first ∧ others = segments := by simpa [hc] using hsplit
      refine ⟨by rw [List.count_cons_of_ne hc, hcount], fun texts hlength => ?_⟩
      rw [instantiate_cons hc, hinstantiate texts hlength]
      rfl

/-- **A key matches exactly if its wildcards can be filled.** With the pieces `s₀ … sₖ` of the pattern
between its wildcards, the signature is `s₀ w₁ s₁ … wₖ sₖ r` for some texts; in other words, some
choice of a text for each wildcard makes the pattern a prefix of the signature. -/
theorem wildcardMatches_iff (pattern signature : String) :
    (wildcardMatches pattern signature ↔
      ∃ first segments texts rest, pattern.toList.splitOn '*' = first :: segments ∧
        texts.length = segments.length ∧
        signature.toList = first ++ gapped texts segments ++ rest) ∧
    (wildcardMatches pattern signature ↔
      ∃ texts, texts.length = pattern.toList.count '*' ∧
        instantiate pattern.toList texts <+: signature.toList) := by
  obtain ⟨first, segments, hsplit⟩ :=
    List.exists_cons_of_ne_nil (List.splitOn_ne_nil '*' pattern.toList)
  obtain ⟨hcount, hinstantiate⟩ := pieces_spec hsplit
  rw [wildcardMatches, matchesChars_iff hsplit, hsplit]
  constructor
  · constructor
    · rintro ⟨texts, rest, h⟩
      exact ⟨first, segments, texts, rest, rfl, h⟩
    · rintro ⟨_, _, texts, rest, ⟨⟩, h⟩
      exact ⟨texts, rest, h⟩
  · constructor
    · rintro ⟨texts, rest, hlength, htext⟩
      refine ⟨texts, hlength.trans hcount.symm, rest, ?_⟩
      rw [hinstantiate texts hlength, htext]
    · rintro ⟨texts, hlength, rest, htext⟩
      have hlength' := hlength.trans hcount
      refine ⟨texts, rest, hlength', ?_⟩
      rw [← hinstantiate texts hlength', htext]

-- The second occurrence of `aa` would leave too little for the other segment.
example : wildcardMatches "*aa*ab" "aaab" := by decide

end IntervalSuite.Wildcard
