import IntervalSuite.Proofs.Template.Filling
import IntervalSuite.Proofs.Text.Blanks

/-!
# Trimming a template

The frame of a test is trimmed before and between its substitutions. Blanks at the ends of a template
belong to no placeholder, so that a substitution leaves them where they are: for the trimmed text it
makes no difference whether the template is trimmed first.

* `segments_append_blank`: blanks behind a template stand for themselves.
* `trim_substitute_trim`: trimming first makes no difference.
-/

namespace IntervalSuite.Template

open Text

/-! ## Blanks around a template -/

/-- A blank neither is part of a placeholder nor continues one. -/
theorem not_special_of_isBlank {c : Char} (h : isBlank c) :
    isNamePart c = false ∧ c ≠ '$' ∧ c ≠ '\x7b' ∧ c ≠ '\x7d' := by
  refine ⟨?_, ?_, ?_, ?_⟩
  · cases hpart : isNamePart c with
    | false => rfl
    | true =>
      have hword : c.isAlphanum || c == '_' := by
        simp only [isNamePart, isNameStart, Bool.or_eq_true] at hpart
        simp only [Char.isAlphanum, Bool.or_eq_true]
        tauto
      rw [isBlank_of_word hword] at h
      cases h
  all_goals
    rintro rfl
    cases h

theorem stops_of_blank {q : List Char} (hq : ∀ c ∈ q, isBlank c) : Stops isNamePart q :=
  fun c hc => (not_special_of_isBlank (hq c (List.mem_of_mem_head? hc))).1

/-- Blanks behind a text do not change what a dollar sign in front of it starts. -/
theorem afterDollar?_append_blank {q : List Char} (hq : ∀ c ∈ q, isBlank c) (cs : List Char) :
    afterDollar? (cs ++ q) = afterDollar? cs := by
  have hlead := leadingName_append (stops_of_blank hq)
  have hhead : ∀ c ∈ q.head?, c ≠ '$' ∧ c ≠ '\x7b' ∧ c ≠ '\x7d' := fun c hc =>
    (not_special_of_isBlank (hq c (List.mem_of_mem_head? hc))).2
  cases cs with
  | nil =>
    cases q with
    | nil => rfl
    | cons c q =>
      obtain ⟨hdollar, hbrace, -⟩ := hhead c rfl
      have hnil : leadingName (c :: q) = [] := hlead []
      rw [List.nil_append, afterDollar?_cons hdollar hbrace, hnil]
      rfl
  | cons c cs =>
    by_cases hdollar : c = '$'
    · subst hdollar
      rfl
    by_cases hbrace : c = '\x7b'
    · subst hbrace
      have hclose : ((cs ++ q).drop (leadingName cs).length).head? = some '\x7d' ↔
          (cs.drop (leadingName cs).length).head? = some '\x7d' := by
        rw [List.drop_append_of_le_length (leadingName_isPrefix cs).length_le, List.head?_append]
        cases (cs.drop (leadingName cs).length).head? with
        | some c => rfl
        | none => simpa using fun hc => (hhead _ hc).2.2 rfl
      simp only [List.cons_append, afterDollar?, hlead, hclose]
    · rw [List.cons_append, afterDollar?_cons hdollar hbrace, afterDollar?_cons hdollar hbrace,
        ← List.cons_append, hlead]

theorem segments_append_left {p : List Char} (hp : '$' ∉ p) (cs : List Char) :
    segments (p ++ cs) = p.map .char ++ segments cs := by
  induction p with
  | nil => rfl
  | cons c p ih =>
    rw [List.mem_cons, not_or] at hp
    rw [List.cons_append, segments, if_neg (Ne.symm hp.1), ih hp.2]
    rfl

/-- Blanks behind a template stand for themselves. -/
theorem segments_append_blank {q : List Char} (hq : ∀ c ∈ q, isBlank c) (cs : List Char) :
    segments (cs ++ q) = segments cs ++ q.map .char := by
  fun_induction segments cs with
  | case1 =>
    have hclosed : '$' ∉ q := fun hmem => (not_special_of_isBlank (hq _ hmem)).2.1 rfl
    simpa [segments] using segments_append_left hclosed []
  | case2 cs s hs ih =>
    obtain ⟨hstart, -, -⟩ := afterDollar?_spec hs
    have hlen : s.text.length - 1 ≤ cs.length := by
      have := hstart.length_le
      rw [List.length_cons] at this
      omega
    rw [List.cons_append, segments, if_pos rfl, afterDollar?_append_blank hq, hs]
    change s :: segments ((cs ++ q).drop (s.text.length - 1)) = _
    rw [List.drop_append_of_le_length hlen, ih]
    rfl
  | case3 cs hs ih =>
    rw [List.cons_append, segments, if_pos rfl, afterDollar?_append_blank hq, hs, ih]
    rfl
  | case4 c cs hc ih =>
    rw [List.cons_append, segments, if_neg hc, ih]
    rfl

/-- **Trimming first makes no difference** for the trimmed result of a substitution. -/
theorem trim_substitute_trim (t name v : String) :
    trim (substitute (trim t) name v) = trim (substitute t name v) := by
  obtain ⟨p, q, ht, hp, hq⟩ := exists_trimChars t.toList
  have hclosed : '$' ∉ p := fun hmem => (not_special_of_isBlank (hp _ hmem)).2.1 rfl
  have hsegs : segments t.toList =
      p.map .char ++ (segments (trim t).toList ++ q.map .char) := by
    rw [trim, String.toList_ofList, ← segments_append_blank hq, ← segments_append_left hclosed,
      ← ht]
  have htext : (substitute t name v).toList = p ++ ((substitute (trim t) name v).toList ++ q) := by
    rw [substitute, hsegs, String.toList_ofList, List.flatMap_append, List.flatMap_append,
      flatMap_chars fun _ => rfl, flatMap_chars fun _ => rfl, substitute, String.toList_ofList]
  rw [trim.eq_def (substitute t name v), htext, trimChars_padded hp hq]
  rfl

end IntervalSuite.Template
