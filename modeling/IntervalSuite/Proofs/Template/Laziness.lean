import IntervalSuite.Proofs.Template.Rescanning

/-!
# Values on demand

A value that has to be looked up is only looked up if the template mentions its name. Whether it does
is decided by a search for the texts `$name` and `${name}`, which does not read the template as a
substitution does: it also finds them at the start of a longer name, and behind the first dollar sign
of a `$$`. There a value is looked up that no placeholder needs.

* `mentions_iff`: the search finds the placeholders of the name and these texts besides, which are
  its `Shadows`, and nothing else.
* `substituteWith_eq_error_iff`: so the failure of a value is the failure of its substitution just in
  these cases.
* `substituteWith_lossless`: a value that is not looked up would have made no difference.
-/

namespace IntervalSuite.Template

open Text

/-! ## Names behind a dollar sign -/

/-- Behind a dollar sign, the text starts as a placeholder of the name is written. -/
def Written (name cs : List Char) : Prop :=
  name <+: cs ∨ '\x7b' :: (name ++ ['\x7d']) <+: cs

instance (name cs : List Char) : Decidable (Written name cs) :=
  inferInstanceAs (Decidable (_ ∨ _))

/-- A text of the name is written as a placeholder, be it inside of something longer. -/
def Mentioned (name : List Char) : List Char → Prop
  | [] => False
  | c :: cs => (c = '$' ∧ Written name cs) ∨ Mentioned name cs

/-- The text starts a longer name, or it stands behind the dollar sign of a `$$`. -/
def Shadows (name : List Char) : List Segment → Prop
  | [] => False
  | .char _ :: ss => Shadows name ss
  | .dollar :: ss => Written name (ss.flatMap Segment.text) ∨ Shadows name ss
  | .hole n b :: ss => (b = false ∧ name <+: n ∧ n ≠ name) ∨ Shadows name ss

instance decidableShadows (name : List Char) : DecidablePred (Shadows name)
  | [] => .isFalse id
  | .char _ :: ss => decidableShadows name ss
  | .dollar :: ss | .hole _ _ :: ss =>
    have := decidableShadows name ss
    inferInstanceAs (Decidable (_ ∨ _))

section

variable {name : List Char}

/-- A name at the start of a text is a part of the identifier there. -/
theorem IsName.isPrefix_leadingName (hname : IsName name) (rest : List Char) :
    name <+: leadingName (name ++ rest) := by
  obtain ⟨c, cs, rfl, hc, hcs⟩ := hname.exists_cons
  rw [List.cons_append, leadingName, if_pos hc, List.takeWhile_append_of_pos hcs]
  exact (List.prefix_cons_inj c).mpr (List.prefix_append _ _)

theorem IsName.afterDollar?_append (hname : IsName name) (rest : List Char) :
    afterDollar? (name ++ rest) = some (.hole (leadingName (name ++ rest)) false) := by
  have hne : leadingName (name ++ rest) ≠ [] := fun hnil =>
    hname.1 (List.prefix_nil.mp (hnil ▸ hname.isPrefix_leadingName rest))
  obtain ⟨c, cs, rfl, hc, -⟩ := hname.exists_cons
  have hdollar : c ≠ '$' := by rintro rfl; cases hc
  have hbrace : c ≠ '\x7b' := by rintro rfl; cases hc
  rw [List.cons_append] at hne ⊢
  rw [afterDollar?_cons hdollar hbrace, if_pos hne]

/-- What is written as a placeholder of the name is a placeholder of the name, or of a longer one. -/
theorem written_iff (hname : IsName name) {cs : List Char} :
    Written name cs ↔
      ∃ n b, afterDollar? cs = some (.hole n b) ∧ (n = name ∨ b = false ∧ name <+: n) := by
  constructor
  · rintro (⟨rest, rfl⟩ | ⟨rest, rfl⟩)
    · exact ⟨_, false, hname.afterDollar?_append rest, .inr ⟨rfl, hname.isPrefix_leadingName rest⟩⟩
    · obtain ⟨b, hafter, -⟩ := (Placeholder.braced rest).afterDollar? hname
      exact ⟨name, b, by simpa using hafter, .inl rfl⟩
  · rintro ⟨n, b, hafter, hn⟩
    obtain ⟨htext, -, -⟩ := afterDollar?_spec hafter
    cases b with
    | false =>
      have hpre : name <+: n := hn.elim (fun h => h ▸ List.prefix_refl n) And.right
      exact .inl (hpre.trans ((List.prefix_cons_inj '$').mp htext))
    | true =>
      obtain rfl : n = name := hn.elim id fun h => absurd h.1 (by decide)
      exact .inr ((List.prefix_cons_inj '$').mp htext)

theorem not_written_dollar (hname : IsName name) (cs : List Char) : ¬ Written name ('$' :: cs) := by
  rw [written_iff hname]
  rintro ⟨n, b, hafter, -⟩
  cases hafter

theorem mentioned_append {u : List Char} (hu : '$' ∉ u) (cs : List Char) :
    Mentioned name (u ++ cs) ↔ Mentioned name cs := by
  induction u with
  | nil => rfl
  | cons c u ih =>
    rw [List.mem_cons, not_or] at hu
    have hc : c ≠ '$' := Ne.symm hu.1
    simp [Mentioned, hc, ih hu.2]

/-! ## The search -/

theorem mentioned_iff_isInfix {cs : List Char} :
    Mentioned name cs ↔ (Segment.hole name false).text <:+: cs ∨
      (Segment.hole name true).text <:+: cs := by
  induction cs with
  | nil => simp [Mentioned, Segment.text]
  | cons c cs ih =>
    rw [Mentioned, ih, List.infix_cons_iff, List.infix_cons_iff, Segment.text, Segment.text,
      List.cons_prefix_cons, List.cons_prefix_cons, Written, @eq_comm _ c]
    tauto

/-- The text holds a placeholder of the name or one of its shadows. -/
theorem mentioned_iff (hname : IsName name) {cs : List Char} :
    Mentioned name cs ↔ (∃ b, .hole name b ∈ segments cs) ∨ Shadows name (segments cs) := by
  fun_induction segments cs with
  | case1 => simp [Mentioned, Shadows]
  | case2 cs s hs ih =>
    cases s with
    | char c => exact absurd rfl ((afterDollar?_spec hs).2.1 c)
    | dollar =>
      obtain ⟨rest, rfl⟩ := exists_cons_of_afterDollar?_dollar hs
      have ih : Mentioned name rest ↔ _ := ih
      have hnot := not_written_dollar hname rest
      change _ ↔ (∃ b, .hole name b ∈ Segment.dollar :: segments rest) ∨
        Shadows name (.dollar :: segments rest)
      simp only [Mentioned, ih, hnot, Shadows, flatMap_text_segments, List.mem_cons, reduceCtorEq,
        false_or, true_and]
      tauto
    | hole n b =>
      obtain ⟨u, hu, hdollar⟩ := exists_append_of_afterDollar?_hole hs
      have hwritten : Written name cs ↔ n = name ∨ b = false ∧ name <+: n := by
        rw [written_iff hname, hs]
        constructor
        · rintro ⟨_, _, ⟨⟩, h⟩
          exact h
        · exact fun h => ⟨n, b, rfl, h⟩
      generalize cs.drop ((Segment.hole n b).text.length - 1) = rest at hu ih ⊢
      rw [Mentioned, hwritten, hu, mentioned_append hdollar, ih, Shadows]
      by_cases hn : n = name
      · subst hn
        simp
      · have hne : ∀ b', Segment.hole name b' ≠ .hole n b := by
          rintro b' ⟨⟩
          exact hn rfl
        simp [hn, hne, or_left_comm]
  | case3 cs hs ih =>
    have hnot : ¬ Written name cs := by simp [written_iff hname, hs]
    simp [Mentioned, ih, hnot, Shadows]
  | case4 c cs hc ih => simp [Mentioned, ih, hc, Shadows]

end

/-- The search finds the placeholders of the name and its shadows. -/
theorem mentions_iff {t name : String} (hname : IsName name.toList) :
    mentions t name = true ↔
      name ∈ placeholders t ∨ Shadows name.toList (segments t.toList) := by
  rw [mentions, Bool.or_eq_true, occursIn_iff, occursIn_iff, ← mentioned_iff_isInfix,
    mentioned_iff hname, mem_placeholders]

/-! ## Looking up a value -/

section

variable {ε : Type} {t name : String}

/-- The failure of a value counts only if the template asks for the value. -/
theorem substituteWith_eq_error_iff (hname : IsName name.toList) {value : Except ε String} {e : ε} :
    substituteWith t name value = .error e ↔
      value = .error e ∧ (name ∈ placeholders t ∨ Shadows name.toList (segments t.toList)) := by
  rw [← mentions_iff hname, substituteWith]
  cases mentions t name with
  | true => cases value <;> simp [Functor.map, Except.map]
  | false => simp [pure, Except.pure]

/-- **A value is computed on demand:** where the template has a placeholder of the name, or a shadow
of the name. In all other cases the computation does not matter. -/
theorem substituteWith_demands (hname : IsName name.toList) (e : ε) :
    (substituteWith t name (.error e : Except ε String) = .error e ↔
        name ∈ placeholders t ∨ Shadows name.toList (segments t.toList)) ∧
      (¬ (name ∈ placeholders t ∨ Shadows name.toList (segments t.toList)) →
        ∀ (m : Type → Type) [Monad m] (value : m String),
          substituteWith t name value = pure (substitute t name "")) := by
  refine ⟨by simp [substituteWith_eq_error_iff hname], fun hnot m _ value => ?_⟩
  rw [← mentions_iff hname] at hnot
  rw [substituteWith, if_neg hnot]

end

/-- A longer name in braces and a lone dollar sign ask for nothing. -/
theorem substituteWith_demands_braced :
    IsName "ARG1".toList ∧
      ¬ ("ARG1" ∈ placeholders "$\x7bARG10\x7d $ ARG1" ∨
        Shadows "ARG1".toList (segments "$\x7bARG10\x7d $ ARG1".toList)) ∧
      substituteWith "$\x7bARG10\x7d $ ARG1" "ARG1" (.error () : Except Unit String) =
        .ok "$\x7bARG10\x7d $ ARG1" := by
  have hname : IsName "ARG1".toList := ⟨by decide, by decide⟩
  have hnot : ¬ ("ARG1" ∈ placeholders "$\x7bARG10\x7d $ ARG1" ∨
      Shadows "ARG1".toList (segments "$\x7bARG10\x7d $ ARG1".toList)) := by
    decide +kernel
  refine ⟨hname, hnot, ?_⟩
  rw [(substituteWith_demands hname ()).2 hnot (Except Unit) (.error ())]
  decide +kernel

/-- A longer name without braces, and a dollar sign that is escaped: the value is asked for, and there
is no place for it. -/
theorem substituteWith_shadowed :
    IsName "ARG1".toList ∧ "ARG1" ∉ placeholders "$ARG10" ∧ "ARG1" ∉ placeholders "$$ARG1" ∧
      substituteWith "$ARG10" "ARG1" (.error () : Except Unit String) = .error () ∧
      substituteWith "$$ARG1" "ARG1" (.error () : Except Unit String) = .error () := by
  refine ⟨⟨by decide, by decide⟩, ?_, ?_, ?_, ?_⟩ <;> decide +kernel

/-! ## No value is lost -/

/-- **No value is lost.** A value that can be computed is substituted as if it had been there from the
start. The failure of a value is the failure of its substitution, unless any value whatever would give
the same text; then that text is the result. -/
theorem substituteWith_lossless {ε : Type} (t name : String) :
    (∀ v, substituteWith t name (.ok v : Except ε String) = .ok (substitute t name v)) ∧
      ∀ e, substituteWith t name (.error e : Except ε String) = .error e ∨
        ∀ w, substituteWith t name (.error e : Except ε String) = .ok (substitute t name w) := by
  constructor
  · intro v
    obtain hput | hfree := substituteWith_cases t name (.ok v : Except ε String)
    · exact hput
    · exact hfree v
  · exact fun e => substituteWith_cases t name (Except.error e)

/-! ## Templates that are divided -/

/-- In a divided template, only longer names without braces shadow a name. -/
theorem Parted.shadows_iff {name : List Char} {ss : List Segment} (h : Parted ss) :
    Shadows name ss ↔ ∃ n, .hole n false ∈ ss ∧ name <+: n ∧ n ≠ name := by
  induction ss with
  | nil => simp [Shadows]
  | cons s ss ih =>
    have ih := ih h.tail
    cases s with
    | char c => simp [Shadows, ih]
    | dollar => exact h.elim
    | hole n b =>
      rw [Shadows, ih]
      constructor
      · rintro (⟨rfl, hn⟩ | ⟨m, hm, hn⟩)
        · exact ⟨n, List.mem_cons_self, hn⟩
        · exact ⟨m, List.mem_cons_of_mem _ hm, hn⟩
      · rintro ⟨m, hm, hn⟩
        obtain heq | hm := List.mem_cons.mp hm
        · cases heq
          exact .inl ⟨rfl, hn⟩
        · exact .inr ⟨m, hm, hn⟩

end IntervalSuite.Template
