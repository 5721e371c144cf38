import IntervalSuite.Template
import IntervalSuite.Proofs.Text.Run

/-!
# Reading a template

The segments of a template make up its text, and the names of its placeholders are identifiers. The
other way round, a list of segments is read back from its text if it is parted: every dollar sign
belongs to a placeholder, and behind each placeholder without braces the text ends or goes on with a
character that neither is a dollar sign nor continues a name. In a well-separated template the same
holds behind placeholders in braces.

* `flatMap_text_segments`: nothing of a template is lost.
* `segments_flatMap_text`: parted segments are read back from their text.
-/

namespace IntervalSuite.Template

open Text

/-! ## Names -/

/-- The text is an identifier. -/
def IsName (name : List Char) : Prop := name ≠ [] ∧ leadingName name = name

theorem leadingName_append {rest : List Char} (hr : Stops isNamePart rest) (cs : List Char) :
    leadingName (cs ++ rest) = leadingName cs := by
  cases cs with
  | cons c cs => rw [List.cons_append, leadingName, takeWhile_append_stops hr, leadingName]
  | nil =>
    cases rest with
    | nil => rfl
    | cons c rest =>
      have hc : isNameStart c = false := (Bool.or_eq_false_iff.mp (hr c rfl)).1
      rw [List.nil_append, leadingName.eq_2, hc]
      rfl

theorem leadingName_isPrefix (cs : List Char) : leadingName cs <+: cs := by
  cases cs with
  | nil => exact List.prefix_rfl
  | cons c cs =>
    rw [leadingName]
    split
    · exact List.prefix_cons_inj c |>.mpr (List.takeWhile_prefix _)
    · exact List.nil_prefix

theorem isName_leadingName {cs : List Char} (h : leadingName cs ≠ []) :
    IsName (leadingName cs) := by
  refine ⟨h, ?_⟩
  cases cs with
  | nil => rfl
  | cons c cs =>
    rw [leadingName] at h ⊢
    split at h
    · rename_i hc
      rw [if_pos hc, leadingName, if_pos hc,
        List.takeWhile_eq_self_iff.mpr fun _ hd => List.mem_takeWhile_imp hd]
    · exact absurd rfl h

theorem IsName.exists_cons {name : List Char} (h : IsName name) :
    ∃ c cs, name = c :: cs ∧ isNameStart c = true ∧ ∀ d ∈ cs, isNamePart d = true := by
  obtain ⟨c, cs, rfl⟩ := List.exists_cons_of_ne_nil h.1
  have hlead := h.2
  rw [leadingName] at hlead
  split at hlead
  · refine ⟨c, cs, rfl, ‹_›, fun d hd => ?_⟩
    rw [← (List.cons.inj hlead).2] at hd
    exact List.mem_takeWhile_imp hd
  · cases hlead

/-! ## Segments of a text -/

theorem afterDollar?_cons {c : Char} (hdollar : c ≠ '$') (hbrace : c ≠ '\x7b') (cs : List Char) :
    afterDollar? (c :: cs) =
      if leadingName (c :: cs) ≠ [] then some (.hole (leadingName (c :: cs)) false) else none := by
  unfold afterDollar?
  split
  · cases ‹_ :: _ = []›
  · exact absurd (List.cons.inj ‹_ :: _ = _›).1 hdollar
  · exact absurd (List.cons.inj ‹_ :: _ = _›).1 hbrace
  · rfl

/-- What a dollar sign starts stands at the start of the text; it is no single character, and a name
in it is an identifier. -/
theorem afterDollar?_spec {cs : List Char} {s : Segment} (h : afterDollar? cs = some s) :
    s.text <+: '$' :: cs ∧ (∀ c, s ≠ .char c) ∧ ∀ n b, s = .hole n b → IsName n := by
  unfold afterDollar? at h
  split at h
  · cases h
  · cases h
    exact ⟨by simp [Segment.text], by simp, by simp⟩
  · rename_i cs
    simp only [Option.ite_none_right_eq_some, Option.some.injEq] at h
    obtain ⟨⟨hne, hclose⟩, rfl⟩ := h
    refine ⟨?_, by simp, ?_⟩
    · obtain ⟨rest, hrest⟩ := leadingName_isPrefix cs
      generalize leadingName cs = name at hclose hrest
      subst hrest
      rw [List.drop_left] at hclose
      obtain ⟨rest', rfl⟩ := List.head?_eq_some_iff.mp hclose
      exact ⟨rest', by simp [Segment.text]⟩
    · rintro n b ⟨⟩
      exact isName_leadingName hne
  · simp only [Option.ite_none_right_eq_some, Option.some.injEq] at h
    obtain ⟨hne, rfl⟩ := h
    refine ⟨?_, by simp, ?_⟩
    · simpa [Segment.text] using leadingName_isPrefix _
    · rintro n b ⟨⟩
      exact isName_leadingName hne

theorem flatMap_text_segments (cs : List Char) : (segments cs).flatMap Segment.text = cs := by
  fun_induction segments cs with
  | case1 => rfl
  | case2 cs s hs ih =>
    obtain ⟨⟨rest, hrest⟩, -, -⟩ := afterDollar?_spec hs
    have hpos : 0 < s.text.length := by
      cases s with
      | hole n b => cases b <;> simp [Segment.text]
      | _ => simp [Segment.text]
    have hdrop : cs.drop (s.text.length - 1) = rest := by
      rw [show cs = ('$' :: cs).drop 1 from rfl, List.drop_drop, ← hrest]
      rw [show 1 + (s.text.length - 1) = s.text.length by omega, List.drop_left]
    rw [List.flatMap_cons, ih, hdrop, hrest]
  | case3 cs _ ih => rw [List.flatMap_cons, ih]; rfl
  | case4 c cs _ ih => rw [List.flatMap_cons, ih]; rfl

theorem isName_of_mem_segments {cs n : List Char} {b : Bool} (h : .hole n b ∈ segments cs) :
    IsName n := by
  fun_induction segments cs with
  | case1 => cases h
  | case2 cs s hs ih =>
    rcases List.mem_cons.mp h with rfl | h
    · exact (afterDollar?_spec hs).2.2 n b rfl
    · exact ih h
  | case3 cs _ ih => exact ih (by simpa using h)
  | case4 c cs _ ih => exact ih (by simpa using h)

/-! ## Segments that are kept apart -/

/-- The segments do not continue a placeholder in front of them: there are none, or the first one is
a character that neither is a dollar sign nor continues a name. -/
def Clear : List Segment → Prop
  | [] => True
  | .char c :: _ => c ≠ '$' ∧ isNamePart c = false
  | _ => False

/-- Every dollar sign belongs to a placeholder, and what follows a placeholder does not continue
it. -/
def Spaced : List Segment → Prop
  | [] => True
  | .char c :: ss => c ≠ '$' ∧ Spaced ss
  | .dollar :: _ => False
  | .hole _ _ :: ss => Clear ss ∧ Spaced ss

/-- The template is well separated. -/
def WellSeparated (template : String) : Prop := Spaced (segments template.toList)

/-- Every dollar sign belongs to a placeholder, and what follows a placeholder without braces does
not continue it. -/
def Parted : List Segment → Prop
  | [] => True
  | .char c :: ss => c ≠ '$' ∧ Parted ss
  | .dollar :: _ => False
  | .hole _ b :: ss => (b = false → Clear ss) ∧ Parted ss

/-- The template is divided into characters and placeholders. -/
def Divided (template : String) : Prop := Parted (segments template.toList)

instance : DecidablePred Clear
  | [] => .isTrue trivial
  | .char _ :: _ => inferInstanceAs (Decidable (_ ∧ _))
  | .dollar :: _ | .hole .. :: _ => .isFalse id

instance decidableSpaced : DecidablePred Spaced
  | [] => .isTrue trivial
  | .char _ :: ss =>
    have := decidableSpaced ss
    inferInstanceAs (Decidable (_ ∧ _))
  | .dollar :: _ => .isFalse id
  | .hole .. :: ss =>
    have := decidableSpaced ss
    inferInstanceAs (Decidable (_ ∧ _))

instance : DecidablePred WellSeparated := fun t =>
  inferInstanceAs (Decidable (Spaced (segments t.toList)))

instance decidableParted : DecidablePred Parted
  | [] => .isTrue trivial
  | .char _ :: ss =>
    have := decidableParted ss
    inferInstanceAs (Decidable (_ ∧ _))
  | .dollar :: _ => .isFalse id
  | .hole .. :: ss =>
    have := decidableParted ss
    inferInstanceAs (Decidable ((_ → _) ∧ _))

instance : DecidablePred Divided := fun t =>
  inferInstanceAs (Decidable (Parted (segments t.toList)))

/-- The segments are well separated, and their placeholders have identifiers for names. -/
structure Readable (ss : List Segment) : Prop where
  spaced : Spaced ss
  names : ∀ n b, .hole n b ∈ ss → IsName n

theorem Readable.tail {s : Segment} {ss : List Segment} (h : Readable (s :: ss)) : Readable ss := by
  refine ⟨?_, fun n b hmem => h.names n b (List.mem_cons_of_mem _ hmem)⟩
  cases s with
  | char c => exact h.spaced.2
  | dollar => exact h.spaced.elim
  | hole n b => exact h.spaced.2

theorem WellSeparated.readable {t : String} (h : WellSeparated t) : Readable (segments t.toList) :=
  ⟨h, fun _ _ => isName_of_mem_segments⟩

theorem Spaced.parted {ss : List Segment} (h : Spaced ss) : Parted ss := by
  induction ss with
  | nil => trivial
  | cons s ss ih =>
    cases s with
    | char c => exact ⟨h.1, ih h.2⟩
    | dollar => exact h.elim
    | hole n b => exact ⟨fun _ => h.1, ih h.2⟩

theorem WellSeparated.divided {t : String} (h : WellSeparated t) : Divided t := h.parted

theorem Parted.tail {s : Segment} {ss : List Segment} (h : Parted (s :: ss)) : Parted ss := by
  cases s with
  | char c => exact h.2
  | dollar => exact h.elim
  | hole n b => exact h.2

theorem Parted.ne_dollar {ss : List Segment} (h : Parted ss) : .dollar ∉ ss := by
  induction ss with
  | nil => simp
  | cons s ss ih =>
    rw [List.mem_cons, not_or]
    refine ⟨?_, ih h.tail⟩
    rintro rfl
    exact h

theorem Parted.ne_char {ss : List Segment} (h : Parted ss) : .char '$' ∉ ss := by
  induction ss with
  | nil => simp
  | cons s ss ih =>
    rw [List.mem_cons, not_or]
    refine ⟨?_, ih h.tail⟩
    rintro rfl
    exact h.1 rfl

theorem Clear.stops {ss : List Segment} (h : Clear ss) :
    Stops isNamePart (ss.flatMap Segment.text) := by
  cases ss with
  | nil => simp [Stops]
  | cons s ss =>
    cases s with
    | char c => exact Stops.cons h.2 _
    | dollar | hole => exact h.elim

theorem afterDollar?_hole {n rest : List Char} (b : Bool) (hn : IsName n)
    (hr : b = false → Stops isNamePart rest) :
    afterDollar? ((Segment.hole n b).text.drop 1 ++ rest) = some (.hole n b) := by
  cases b with
  | true =>
    have hbrace : Stops isNamePart ('\x7d' :: rest) := Stops.cons (by decide) rest
    have hlead := (leadingName_append hbrace n).trans hn.2
    simp [Segment.text, afterDollar?, hlead, hn.1]
  | false =>
    have hlead := (leadingName_append (hr rfl) n).trans hn.2
    obtain ⟨c, cs, rfl, hc, -⟩ := hn.exists_cons
    rw [List.cons_append] at hlead
    have hdollar : c ≠ '$' := by rintro rfl; cases hc
    have hbrace : c ≠ '\x7b' := by rintro rfl; cases hc
    change afterDollar? (c :: (cs ++ rest)) = _
    rw [afterDollar?_cons hdollar hbrace, hlead, if_pos (by simp)]

/-- Parted segments with identifiers for names are read back from their text. -/
theorem segments_flatMap_text {ss : List Segment} (h : Parted ss)
    (hnames : ∀ n b, .hole n b ∈ ss → IsName n) : segments (ss.flatMap Segment.text) = ss := by
  induction ss with
  | nil => simp [segments]
  | cons s ss ih =>
    have ih := ih h.tail fun n b hmem => hnames n b (List.mem_cons_of_mem _ hmem)
    cases s with
    | dollar => exact h.elim
    | char c =>
      change segments (c :: ss.flatMap Segment.text) = _
      rw [segments, if_neg h.1, ih]
    | hole n b =>
      have hafter := afterDollar?_hole b (hnames n b (by simp)) fun hb => (h.1 hb).stops
      have htext : (Segment.hole n b).text = '$' :: (Segment.hole n b).text.drop 1 := by
        cases b <;> rfl
      rw [List.flatMap_cons, htext, List.cons_append, segments, if_pos rfl, hafter]
      simp [ih]

end IntervalSuite.Template
