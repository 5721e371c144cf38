import IntervalSuite.Text.Search
import Mathlib.Data.List.Infix

/-!
# The first occurrence of a text

What the searches of `Text.Search` find, said through the prefixes, suffixes and infixes of a text.

* `takeThrough?_eq_some_iff`: the text through the first occurrence is the only prefix that ends with
  an occurrence and has none before.
* `exists_dropThrough?`: what follows the first occurrence ends with what follows any other one.
* `occursIn_iff`: a text is found if and only if it occurs.
* `intercalate_splitBetween`, `separator_not_infix`: the parts of a text between its separators.
-/

namespace IntervalSuite.Text

/-- The text through the first occurrence of `needle` ends with `needle` and has no earlier
occurrence. -/
theorem takeThrough?_spec {needle cs t : List Char} (hne : needle ≠ [])
    (h : takeThrough? needle cs = some t) :
    needle <:+ t ∧ ¬ needle <:+: t.dropLast ∧ t <+: cs := by
  induction cs generalizing t with
  | nil => simp [takeThrough?, hne] at h
  | cons c cs ih =>
    rw [takeThrough?] at h
    split at h
    · rename_i hp
      cases h
      refine ⟨List.suffix_rfl, fun hin => ?_, List.isPrefixOf_iff_prefix.mp hp⟩
      have hlen := hin.length_le
      have hpos := List.length_pos_iff.mpr hne
      rw [List.length_dropLast] at hlen
      omega
    · rename_i hp
      rw [Option.map_eq_some_iff] at h
      obtain ⟨t, ht, rfl⟩ := h
      obtain ⟨hsuf, hfirst, hpre⟩ := ih ht
      -- An occurrence at the front of the longer text would be one at the front of `c :: cs`.
      have hfront : ¬ needle <+: c :: t := fun hin =>
        hp (List.isPrefixOf_iff_prefix.mpr (hin.trans ((List.prefix_cons_inj c).mpr hpre)))
      have htne : t ≠ [] := fun h0 => hne (by simpa [h0] using hsuf)
      refine ⟨hsuf.trans (List.suffix_cons c t), fun hin => ?_, (List.prefix_cons_inj c).mpr hpre⟩
      rw [List.dropLast_cons_of_ne_nil htne, List.infix_cons_iff] at hin
      rcases hin with hin | hin
      · exact hfront (hin.trans ((List.prefix_cons_inj c).mpr t.dropLast_prefix))
      · exact hfirst hin

theorem takeThrough?_eq_none {needle cs : List Char} (h : takeThrough? needle cs = none) :
    ¬ needle <:+: cs := by
  induction cs with
  | nil =>
    intro hin
    simp [takeThrough?, List.infix_nil.mp hin] at h
  | cons c cs ih =>
    rw [takeThrough?] at h
    split at h
    · cases h
    · rename_i hp
      rw [List.infix_cons_iff]
      rintro (hin | hin)
      · exact hp (List.isPrefixOf_iff_prefix.mpr hin)
      · exact ih (Option.map_eq_none_iff.mp h) hin

/-- The search ends with the first occurrence, which fixes its result. -/
theorem takeThrough?_eq_some_iff {needle cs t : List Char} (hne : needle ≠ []) :
    takeThrough? needle cs = some t ↔
      needle <:+ t ∧ ¬ needle <:+: t.dropLast ∧ t <+: cs := by
  constructor
  · exact takeThrough?_spec hne
  · rintro ⟨hsuf, hfirst, hpre⟩
    cases h : takeThrough? needle cs with
    | none => exact absurd (hsuf.isInfix.trans hpre.isInfix) (takeThrough?_eq_none h)
    | some u =>
      obtain ⟨husuf, hufirst, hupre⟩ := takeThrough?_spec hne h
      -- The shorter of two such texts would have its last occurrence inside of the longer one.
      have key : ∀ a b : List Char, needle <:+ a → ¬ needle <:+: b.dropLast → a <+: cs → b <+: cs →
          ¬ a.length < b.length := by
        intro a b ha hb hacs hbcs hlt
        obtain ⟨more, rfl⟩ := List.prefix_of_prefix_length_le hacs hbcs (Nat.le_of_lt hlt)
        have hmore : more ≠ [] := by rintro rfl; simp at hlt
        rw [List.dropLast_append_of_ne_nil hmore] at hb
        exact hb (ha.isInfix.trans (List.prefix_append _ _).isInfix)
      have hlen : t.length = u.length :=
        Nat.le_antisymm (Nat.le_of_not_lt (key u t husuf hfirst hupre hpre))
          (Nat.le_of_not_lt (key t u hsuf hufirst hpre hupre))
      rw [List.prefix_iff_eq_take.mp hpre, List.prefix_iff_eq_take.mp hupre, hlen]

/-- What follows the first occurrence does not matter. -/
theorem takeThrough?_append {needle cs t : List Char} (hne : needle ≠ [])
    (h : takeThrough? needle cs = some t) (rest : List Char) :
    takeThrough? needle (t ++ rest) = some t := by
  obtain ⟨hsuf, hfirst, -⟩ := takeThrough?_spec hne h
  exact (takeThrough?_eq_some_iff hne).mpr ⟨hsuf, hfirst, List.prefix_append t rest⟩

/-! ## What follows an occurrence -/

theorem append_of_dropThrough? {needle text rest : List Char}
    (h : dropThrough? needle text = some rest) : ∃ before, before ++ needle ++ rest = text := by
  induction text with
  | nil =>
    simp only [dropThrough?, Option.ite_none_right_eq_some, List.isEmpty_iff] at h
    obtain ⟨rfl, hrest⟩ := h
    exact ⟨[], by simpa using (Option.some.inj hrest).symm⟩
  | cons c cs ih =>
    rw [dropThrough?] at h
    split at h
    · rename_i rest' hfront
      obtain rfl := Option.some.inj h
      exact ⟨[], List.isPrefixOf?_eq_some_iff_append_eq.mp hfront⟩
    · obtain ⟨before, hbefore⟩ := ih h
      exact ⟨c :: before, by rw [← hbefore]; rfl⟩

/-- The search stops at the first occurrence, so it leaves at least what follows any occurrence. -/
theorem exists_dropThrough? (before needle after : List Char) :
    ∃ rest, dropThrough? needle (before ++ needle ++ after) = some rest ∧ after <:+ rest := by
  induction before with
  | nil =>
    have hfront : needle.isPrefixOf? (needle ++ after) = some after :=
      List.isPrefixOf?_eq_some_iff_append_eq.mpr rfl
    refine ⟨after, ?_, List.suffix_rfl⟩
    rw [List.nil_append]
    cases htext : needle ++ after with
    | nil =>
      obtain ⟨rfl, rfl⟩ := List.append_eq_nil_iff.mp htext
      rfl
    | cons c cs => rw [dropThrough?, ← htext, hfront]
  | cons c before ih =>
    rw [List.cons_append, List.cons_append, dropThrough?]
    split
    · rename_i rest hfront
      refine ⟨rest, rfl, ?_⟩
      -- Both texts end the same text, and the occurrence at its front leaves the longer one.
      have hsplit : needle ++ rest = c :: (before ++ needle ++ after) :=
        List.isPrefixOf?_eq_some_iff_append_eq.mp hfront
      have hlong : rest <:+ c :: (before ++ needle ++ after) := ⟨needle, hsplit⟩
      have hshort : after <:+ c :: (before ++ needle ++ after) :=
        ⟨c :: (before ++ needle), by simp⟩
      have hlength := congrArg List.length hsplit
      simp only [List.length_append, List.length_cons] at hlength
      exact List.suffix_of_suffix_length_le hshort hlong (by omega)
    · exact ih

theorem occursIn_of_isInfix {needle text : List Char} (h : needle <:+: text) :
    occursIn needle text = true := by
  obtain ⟨before, after, rfl⟩ := h
  obtain ⟨rest, hrest, -⟩ := exists_dropThrough? before needle after
  rw [occursIn, hrest]
  rfl

theorem occursIn_iff {needle text : List Char} : occursIn needle text = true ↔ needle <:+: text := by
  refine ⟨fun h => ?_, occursIn_of_isInfix⟩
  obtain ⟨rest, hrest⟩ := Option.isSome_iff_exists.mp h
  obtain ⟨before, hbefore⟩ := append_of_dropThrough? hrest
  exact ⟨before, rest, hbefore⟩

/-! ## The parts of a text -/

theorem splitBetween_ne_nil (sep cs : List Char) : splitBetween sep cs ≠ [] := by
  fun_cases splitBetween sep cs <;> simp

/-- Behind a separator at the front of a text, the next part starts. -/
theorem drop_separator {sep cs : List Char} {c : Char} (hsep : sep ≠ [])
    (hfront : sep.isPrefixOf (c :: cs)) : sep ++ cs.drop (sep.length - 1) = c :: cs := by
  obtain ⟨rest, hrest⟩ := List.isPrefixOf_iff_prefix.mp hfront
  obtain ⟨d, sep, rfl⟩ := List.exists_cons_of_ne_nil hsep
  obtain ⟨rfl, rfl⟩ := List.cons.inj hrest
  simp

theorem intercalate_cons_head (sep part : List Char) (c : Char) (parts : List (List Char)) :
    sep.intercalate ((c :: part) :: parts) = c :: sep.intercalate (part :: parts) := by
  cases parts with
  | nil => simp
  | cons next parts =>
    rw [List.intercalate_cons_cons, List.intercalate_cons_cons]
    rfl

/-- The parts with the separators between them make up the text. -/
theorem intercalate_splitBetween {sep : List Char} (hsep : sep ≠ []) (cs : List Char) :
    sep.intercalate (splitBetween sep cs) = cs := by
  fun_induction splitBetween sep cs with
  | case1 => simp
  | case2 c cs hfront ih =>
    rw [List.intercalate_cons_of_ne_nil (splitBetween_ne_nil _ _), ih, List.nil_append,
      drop_separator hsep hfront]
  | case3 c cs _ hnil _ => exact absurd hnil (splitBetween_ne_nil sep cs)
  | case4 c cs _ part parts hparts ih =>
    rw [intercalate_cons_head, ← hparts, ih]

/-- No part holds the separator. -/
theorem separator_not_infix {sep cs part : List Char} (hsep : sep ≠ [])
    (hpart : part ∈ splitBetween sep cs) : ¬ sep <:+: part := by
  fun_induction splitBetween sep cs generalizing part with
  | case1 =>
    rw [List.mem_singleton.mp hpart, List.infix_nil]
    exact hsep
  | case2 c cs _ ih =>
    rcases List.mem_cons.mp hpart with rfl | hpart
    · rw [List.infix_nil]
      exact hsep
    · exact ih hpart
  | case3 c cs _ hnil _ => exact absurd hnil (splitBetween_ne_nil sep cs)
  | case4 c cs hfront first parts hparts ih =>
    rcases List.mem_cons.mp hpart with rfl | hpart
    · -- The first part is a prefix of the text, which does not start with the separator.
      have hfirst : first <+: cs := by
        rw [← intercalate_splitBetween hsep cs, hparts]
        cases parts with
        | nil => rw [List.intercalate_singleton]
        | cons next parts =>
          rw [List.intercalate_cons_cons, List.append_assoc]
          exact List.prefix_append _ _
      rw [List.infix_cons_iff]
      rintro (hstart | hinside)
      · have := hstart.trans ((List.prefix_cons_inj c).mpr hfirst)
        exact hfront (List.isPrefixOf_iff_prefix.mpr this)
      · exact ih (hparts ▸ List.mem_cons_self) hinside
    · exact ih (hparts ▸ List.mem_cons_of_mem _ hpart)

end IntervalSuite.Text
