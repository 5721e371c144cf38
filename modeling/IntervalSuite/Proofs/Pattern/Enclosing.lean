import IntervalSuite.Pattern.Match
import IntervalSuite.Proofs.Pattern.Fuel

/-!
# Patterns put into groups

A pattern is made to match at the start of a text by putting it into a group behind `^`. The group is
made by writing parentheses around the text of the pattern. If both the text and the text in the group
are patterns, then the parenthesis behind the text is the one that closes the group.

* `Reads`: the reader of patterns, without its fuel.
* `Reads.closing`: what becomes of a parenthesis behind a pattern.
* `regex?_anchored`: the pattern that a pattern in a group is.
-/

namespace IntervalSuite.Pattern

variable {cs tail rest rest' : List Char} {regex regex' : Regex} {ctx ctx' : Context}

/-- The reader finds a choice at the start of a text and leaves `rest` over. -/
def Reads (cs : List Char) (regex : Regex) (ctx : Context) (rest : List Char) : Prop :=
  ∃ fuel, choice? fuel .start cs = some ((regex, ctx), rest)

theorem Reads.choice?_eq (h : Reads cs regex ctx rest) (fuel : Nat)
    (hfuel : 3 * cs.length + 3 ≤ fuel) : choice? fuel .start cs = some ((regex, ctx), rest) := by
  obtain ⟨n, hn⟩ := h
  exact (choice?_of_fuel n).1 fuel .start cs _ hn hfuel

theorem Reads.unique (h : Reads cs regex ctx rest) (h' : Reads cs regex' ctx' rest') :
    regex = regex' ∧ ctx = ctx' ∧ rest = rest' := by
  have heq := (h.choice?_eq _ (Nat.le_refl _)).symm.trans (h'.choice?_eq _ (Nat.le_refl _))
  simp only [Option.some.injEq, Prod.mk.injEq] at heq
  exact ⟨heq.1.1, heq.1.2, heq.2⟩

theorem regex?_eq_some_iff {names : List (String × Nat)} :
    regex? cs = some (regex, names) ↔ ∃ ctx, Reads cs regex ctx [] ∧ ctx.names = names := by
  constructor
  · intro h
    unfold regex? at h
    split at h
    · next ctx hread =>
      cases h
      exact ⟨ctx, ⟨_, hread⟩, rfl⟩
    · cases h
  · rintro ⟨ctx, hread, rfl⟩
    simp [regex?, hread.choice?_eq _ (Nat.le_refl _)]

/-- A parenthesis behind a pattern is left over, or it is a part of the comment in which the pattern
ends. -/
theorem Reads.closing (h : Reads cs regex ctx []) :
    Reads (cs ++ [')']) regex ctx [')'] ∨ Reads (cs ++ [')']) regex ctx [] := by
  obtain ⟨fuel, hfuel⟩ := h
  obtain hleave | hpass := ((guarded_choice? fuel).1 .start).closing cs
  · exact .inl ⟨fuel, by rw [hleave [], hfuel]; rfl⟩
  · exact .inr ⟨fuel, (hpass _ _ hfuel).2⟩

/-! ## Groups -/

/-- The text of a pattern that matches at the start of a text where the given one matches. -/
def anchored (cs : List Char) : List Char := '^' :: '(' :: '?' :: ':' :: (cs ++ [')'])

/-- The regular expression of such a pattern. -/
def Regex.anchored (regex : Regex) : Regex := .seq (.assertion .start) (.seq regex .empty)

/-- The term that the group around a pattern makes. -/
theorem term?_group (fuel : Nat) (cs : List Char) :
    term? (fuel + 1) .start '(' ('?' :: ':' :: cs) = (choice? fuel .start cs).bind fun r =>
      term?.closed (some r.1.1, ⟨Context.start.flags, r.1.2.groups, r.1.2.names⟩) r.2 :=
  rfl

theorem sequence?_anchor (fuel : Nat) (cs : List Char) :
    sequence? (fuel + 2) .start ('^' :: '(' :: cs) =
      (sequence? (fuel + 1) .start ('(' :: cs)).bind fun r =>
        some ((.seq (.assertion .start) r.1.1, r.1.2), r.2) :=
  rfl

/-- A group at the end of a text is the last term of a sequence. -/
theorem sequence?_group {fuel : Nat}
    (h : term? (fuel + 1) .start '(' cs = some ((some regex, ctx), [])) :
    sequence? (fuel + 2) .start ('(' :: cs) = some ((.seq regex .empty, ctx), []) := by
  rw [sequence?, if_neg (by decide), h]
  rfl

theorem sequence?_group_none {fuel : Nat} (h : term? fuel .start '(' cs = none) :
    sequence? (fuel + 1) .start ('(' :: cs) = none := by
  rw [sequence?, if_neg (by decide), h]
  rfl

theorem regex?_anchored_of_reads (h : Reads (cs ++ [')']) regex ctx [')']) :
    regex? (anchored cs) = some (regex.anchored, ctx.names) := by
  have hread := h.choice?_eq (3 * cs.length + 14) (by simp; omega)
  have hgroup : term? (3 * cs.length + 15) .start '(' ('?' :: ':' :: (cs ++ [')'])) =
      some ((some regex, ⟨Context.start.flags, ctx.groups, ctx.names⟩), []) := by
    rw [term?_group, hread]
    rfl
  have hsequence := sequence?_anchor (3 * cs.length + 15) ('?' :: ':' :: (cs ++ [')']))
  rw [sequence?_group hgroup] at hsequence
  have hwhole : choice? (3 * cs.length + 18) .start (anchored cs) =
      some ((regex.anchored, ⟨Context.start.flags, ctx.groups, ctx.names⟩), []) := by
    rw [choice?]
    change (sequence? (3 * cs.length + 17) .start (anchored cs)).bind _ = _
    rw [anchored, hsequence]
    rfl
  exact regex?_eq_some_iff.mpr ⟨_, ⟨_, hwhole⟩, rfl⟩

/-- If a text in a group is a pattern, a parenthesis closes the group. -/
theorem reads_of_regex?_anchored {names : List (String × Nat)}
    (h : regex? (anchored cs) = some (regex, names)) :
    ∃ body ctx tail, Reads (cs ++ [')']) body ctx (')' :: tail) := by
  obtain ⟨ctx, hwhole, -⟩ := regex?_eq_some_iff.mp h
  have hwhole := hwhole.choice?_eq (3 * cs.length + 18) (by simp [anchored]; omega)
  -- The group is read to its closing parenthesis, or else nothing is read.
  have hgroup : term? (3 * cs.length + 15) .start '(' ('?' :: ':' :: (cs ++ [')'])) ≠ none := by
    intro hnone
    have hsequence := sequence?_anchor (3 * cs.length + 15) ('?' :: ':' :: (cs ++ [')']))
    rw [sequence?_group_none hnone] at hsequence
    rw [choice?] at hwhole
    change (sequence? (3 * cs.length + 17) .start (anchored cs)).bind _ = _ at hwhole
    rw [anchored, hsequence] at hwhole
    cases hwhole
  rw [term?_group] at hgroup
  obtain ⟨b, hb⟩ := Option.ne_none_iff_exists'.mp hgroup
  obtain ⟨⟨⟨body, inner⟩, rest⟩, hread, hclosed⟩ := Option.bind_eq_some_iff.mp hb
  cases rest with
  | nil => cases hclosed
  | cons c tail =>
    by_cases hc : c = ')'
    · subst hc
      exact ⟨body, inner, tail, _, hread⟩
    · simp [term?.closed, hc] at hclosed

/-- **A pattern in a group.** -/
theorem regex?_anchored {names names' : List (String × Nat)} (h : regex? cs = some (regex, names))
    (hwhole : regex? (anchored cs) = some (regex', names')) :
    regex' = regex.anchored ∧ names' = names := by
  obtain ⟨ctx, hread, rfl⟩ := regex?_eq_some_iff.mp h
  obtain ⟨body, ctx', tail, hbody⟩ := reads_of_regex?_anchored hwhole
  -- The parenthesis is not a part of a comment: something has been left over to close the group.
  have hleft : Reads (cs ++ [')']) regex ctx [')'] := hread.closing.resolve_right fun hcomment =>
    absurd (hcomment.unique hbody).2.2 (by simp)
  rw [regex?_anchored_of_reads hleft, Option.some.injEq, Prod.mk.injEq] at hwhole
  exact ⟨hwhole.1.symm, hwhole.2.symm⟩

theorem toList_anchored (source : String) :
    ("^(?:" ++ source ++ ")").toList = anchored source.toList := by
  simp [anchored]

end IntervalSuite.Pattern
