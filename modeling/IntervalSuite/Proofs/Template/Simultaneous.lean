import IntervalSuite.Proofs.Template.Expansion
import IntervalSuite.Proofs.Template.Filling
import Mathlib.Data.List.Nodup

/-!
# Substitutions in any order

A template is filled one name at a time, and each pass reads the text that the passes before it have
left. If every dollar sign of the template starts a placeholder, a closed value can only be taken for
something else where it stands right behind a placeholder without braces, whose name it would
continue. So it is enough that no placeholder stands there.

* `divided_iff`: the templates of this kind are the divided ones.
* `lookup_eq_of_perm`: the order of the values does not matter for what each name is bound to.
* `substituteAll_simultaneous`: the passes fill the template at once, in whatever order they come.
-/

namespace IntervalSuite.Template

open Text

/-! ## Divided templates -/

theorem Parted.right {as bs : List Segment} (h : Parted (as ++ bs)) : Parted bs := by
  induction as with
  | nil => exact h
  | cons s as ih => exact ih h.tail

/-- A name without braces is taken as long as it is. -/
theorem stops_of_afterDollar?_bare {cs n : List Char}
    (h : afterDollar? cs = some (.hole n false)) : Stops isNamePart (cs.drop n.length) := by
  unfold afterDollar? at h
  split at h
  · cases h
  · cases h
  · simp at h
  · simp only [Option.ite_none_right_eq_some, Option.some.injEq, Segment.hole.injEq] at h
    obtain ⟨hne, rfl, -⟩ := h
    obtain ⟨rest, hrest, hstops⟩ := exists_leadingName_append hne
    generalize leadingName cs = name at hrest
    subst hrest
    rwa [List.drop_left]

/-- Behind a placeholder without braces there is the end, a placeholder, or a character that does not
continue the name. -/
theorem clear_segments {cs : List Char} (hstops : Stops isNamePart cs)
    (hchar : .char '$' ∉ segments cs) (hdollar : .dollar ∉ segments cs)
    (hhole : ∀ n b ss, segments cs ≠ .hole n b :: ss) : Clear (segments cs) := by
  have htext := flatMap_text_segments cs
  cases hsegs : segments cs with
  | nil => trivial
  | cons s ss =>
    rw [hsegs] at hchar hdollar htext
    cases s with
    | char c =>
      refine ⟨?_, ?_⟩
      · rintro rfl
        exact hchar (by simp)
      · rw [← htext] at hstops
        exact hstops c rfl
    | dollar => exact absurd (by simp) hdollar
    | hole n b => exact absurd hsegs (hhole n b ss)

theorem parted_segments {cs : List Char} (hchar : .char '$' ∉ segments cs)
    (hdollar : .dollar ∉ segments cs)
    (hbare : ∀ n m b, ¬ [.hole n false, .hole m b] <:+: segments cs) : Parted (segments cs) := by
  fun_induction segments cs with
  | case1 => trivial
  | case2 cs s hs ih =>
    rw [List.mem_cons, not_or] at hchar hdollar
    have hinside : ∀ n m b, ¬ [.hole n false, .hole m b] <:+:
        segments (cs.drop (s.text.length - 1)) := fun n m b hin =>
      hbare n m b (hin.trans (List.suffix_cons _ _).isInfix)
    have ih := ih hchar.2 hdollar.2 hinside
    cases s with
    | char c => exact absurd rfl ((afterDollar?_spec hs).2.1 c)
    | dollar => exact absurd rfl hdollar.1
    | hole n b =>
      refine ⟨?_, ih⟩
      rintro rfl
      refine clear_segments (stops_of_afterDollar?_bare hs) hchar.2 hdollar.2 fun m b ss hsegs => ?_
      exact hbare n m b ⟨[], ss, congrArg (Segment.hole n false :: ·) hsegs.symm⟩
  | case3 cs _ ih => exact absurd (by simp) hchar
  | case4 c cs hc ih =>
    rw [List.mem_cons, not_or] at hchar hdollar
    exact ⟨hc, ih hchar.2 hdollar.2 fun n m b hin =>
      hbare n m b (hin.trans (List.suffix_cons _ _).isInfix)⟩

/-- A template is divided if every dollar sign in it starts a placeholder, and no placeholder stands
right behind one without braces. -/
theorem divided_iff {t : String} :
    Divided t ↔ (.char '$' ∉ segments t.toList ∧ .dollar ∉ segments t.toList) ∧
      ∀ n m b, ¬ [.hole n false, .hole m b] <:+: segments t.toList := by
  constructor
  · intro h
    refine ⟨⟨h.ne_char, h.ne_dollar⟩, ?_⟩
    rintro n m b ⟨before, after, hsplit⟩
    have hparted : Parted (before ++ [.hole n false, .hole m b] ++ after) := hsplit ▸ h
    rw [List.append_assoc] at hparted
    exact hparted.right.1 rfl
  · rintro ⟨⟨hchar, hdollar⟩, hbare⟩
    exact parted_segments hchar hdollar hbare

/-! ## The order of the values -/

/-- Each of the names is bound once, so it does not matter where. -/
theorem lookup_eq_of_perm {vs ws : List (String × String)} (h : vs.Perm ws)
    (hnames : (vs.map Prod.fst).Nodup) (name : String) : vs.lookup name = ws.lookup name := by
  induction h with
  | nil => rfl
  | cons v _ ih =>
    obtain ⟨m, v⟩ := v
    rw [List.lookup_cons, List.lookup_cons, ih (List.nodup_cons.mp hnames).2]
  | swap v w vs =>
    obtain ⟨m, v⟩ := v
    obtain ⟨n, w⟩ := w
    have hne : n ≠ m := fun heq => (List.nodup_cons.mp hnames).1 (by simp [heq])
    simp only [List.lookup_cons]
    by_cases hm : name = m
    · rw [beq_iff_eq.mpr hm, beq_false_of_ne (hm ▸ hne.symm)]
    · rw [beq_false_of_ne hm]
  | trans hfirst _ ih₁ ih₂ => rw [ih₁ hnames, ih₂ ((hfirst.map _).nodup hnames)]

/-- **Substitutions of different names**, one after the other and in any order, fill the template at
once: each placeholder of one of the names is replaced by its value, and all other text stays,
placeholders of other names included. -/
theorem substituteAll_simultaneous {t : String} {values order : List (String × String)}
    (hdollar : .char '$' ∉ segments t.toList ∧ .dollar ∉ segments t.toList)
    (hbare : ∀ n m b, ¬ [.hole n false, .hole m b] <:+: segments t.toList)
    (hnames : (values.map Prod.fst).Nodup) (hvalues : ∀ v ∈ values, Closed v.2)
    (horder : order.Perm values) : substituteAll t order = fillAll t values := by
  have ht : Divided t := divided_iff.mpr ⟨hdollar, hbare⟩
  have hclosed : ClosedValues t order := by
    intro name _ value hvalue
    obtain ⟨as, bs, rfl, -⟩ := List.lookup_eq_some_iff.mp hvalue
    exact hvalues (name, value) (horder.subset (by simp))
  rw [substituteAll_eq_fillAll ht hclosed]
  refine fillAll_congr fun name _ => ?_
  exact lookup_eq_of_perm horder ((horder.map _).nodup_iff.mpr hnames) name

/-- Names that start each other, in reverse, with an unbound name and a placeholder right behind one
in braces. -/
theorem substituteAll_arguments :
    substituteAll "f($ARG1, $\x7bARG10\x7d$ARG2) $ARG1x"
          [("ARG10", "c"), ("ARG2", "b"), ("ARG1", "a")] =
        fillAll "f($ARG1, $\x7bARG10\x7d$ARG2) $ARG1x"
          [("ARG1", "a"), ("ARG2", "b"), ("ARG10", "c")] ∧
      fillAll "f($ARG1, $\x7bARG10\x7d$ARG2) $ARG1x"
          [("ARG1", "a"), ("ARG2", "b"), ("ARG10", "c")] =
        "f(a, cb) $ARG1x" := by
  have hdivided : Divided "f($ARG1, $\x7bARG10\x7d$ARG2) $ARG1x" := by decide +kernel
  obtain ⟨hdollar, hbare⟩ := divided_iff.mp hdivided
  refine ⟨substituteAll_simultaneous hdollar hbare (by decide) (by decide) ?_, by decide +kernel⟩
  exact List.reverse_perm [("ARG1", "a"), ("ARG2", "b"), ("ARG10", "c")]

end IntervalSuite.Template
