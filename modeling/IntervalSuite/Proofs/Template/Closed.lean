import IntervalSuite.Text.Blank
import IntervalSuite.Text.Lines
import IntervalSuite.Text.Search
import IntervalSuite.Text.TitleCase

/-!
# Texts without a dollar sign

A text is closed if it holds no dollar sign, so that no placeholder is read from it. The functions
that bring a text into shape for its place in a file keep it closed.

* `closed_intercalate`, `closed_indent`: texts that are put together.
* `Closed.trim`, `closed_of_mem_lines`, `dollar_not_mem_splitBetween`: pieces of a text.
* `Closed.titleCase`: no letter has a dollar sign for its upper or lower case.
-/

namespace IntervalSuite.Template

open Text

/-- The text holds no dollar sign. -/
def Closed (s : String) : Prop := '$' ∉ s.toList

instance : DecidablePred Closed := fun s => inferInstanceAs (Decidable ('$' ∉ s.toList))

theorem closed_ofList {cs : List Char} : Closed (String.ofList cs) ↔ '$' ∉ cs := by
  rw [Closed, String.toList_ofList]

/-! ## Texts that are put together -/

theorem Closed.append {u w : String} (hu : Closed u) (hw : Closed w) : Closed (u ++ w) := by
  simpa [Closed] using ⟨hu, hw⟩

theorem closed_intercalate {delim : String} {items : List String} (hdelim : Closed delim)
    (h : ∀ item ∈ items, Closed item) : Closed (delim.intercalate items) := by
  induction items with
  | nil => rw [String.intercalate_nil]; decide
  | cons item items ih =>
    obtain ⟨hitem, hitems⟩ := List.forall_mem_cons.mp h
    cases items with
    | nil => rwa [String.intercalate_singleton]
    | cons next items =>
      rw [String.intercalate_cons_of_ne_nil (by simp)]
      exact (hitem.append hdelim).append (ih hitems)

theorem closed_unlines {ls : List String} (h : ∀ l ∈ ls, Closed l) : Closed (unlines ls) :=
  closed_intercalate (by decide) h

/-! ## Pieces of a text -/

theorem Closed.trim {s : String} (h : Closed s) : Closed (trim s) := by
  rw [Text.trim, closed_ofList]
  intro hmem
  have hback := (List.dropWhile_sublist isBlank).subset (List.mem_reverse.mp hmem)
  exact h ((List.dropWhile_sublist isBlank).subset (List.mem_reverse.mp hback))

theorem dollar_not_mem_splitOn {cs part : List Char} (h : '$' ∉ cs)
    (hpart : part ∈ cs.splitOn '\n') : '$' ∉ part := by
  have hjoin : ['\n'].intercalate (cs.splitOn '\n') = cs := List.intercalate_splitOn '\n'
  rw [← hjoin] at h
  generalize cs.splitOn '\n' = parts at h hpart
  induction parts with
  | nil => cases hpart
  | cons first parts ih =>
    cases parts with
    | nil =>
      rw [List.mem_singleton.mp hpart]
      rwa [List.intercalate_singleton] at h
    | cons second parts =>
      rw [List.intercalate_cons_cons, List.mem_append, List.mem_append, not_or, not_or] at h
      rcases List.mem_cons.mp hpart with rfl | hpart
      · exact h.1.1
      · exact ih h.2 hpart

theorem closed_of_mem_lines {s l : String} (h : Closed s) (hl : l ∈ lines s) : Closed l := by
  obtain ⟨part, hpart, rfl⟩ := List.mem_map.mp hl
  exact closed_ofList.mpr (dollar_not_mem_splitOn h hpart)

theorem closed_indent {s : String} (h : Closed s) (spaces : Nat) : Closed (indent s spaces) := by
  refine closed_unlines fun l hl => ?_
  obtain ⟨line, hline, rfl⟩ := List.mem_map.mp hl
  have hpad : Closed (String.ofList (List.replicate spaces ' ')) := by
    rw [closed_ofList, List.mem_replicate]
    rintro ⟨-, hspace⟩
    cases hspace
  exact hpad.append (closed_of_mem_lines h hline)

theorem dollar_not_mem_splitBetween {sep cs part : List Char} (h : '$' ∉ cs)
    (hpart : part ∈ splitBetween sep cs) : '$' ∉ part := by
  fun_induction splitBetween sep cs generalizing part with
  | case1 => simp [List.mem_singleton.mp hpart]
  | case2 c cs hsep ih =>
    rw [List.mem_cons, not_or] at h
    rcases List.mem_cons.mp hpart with rfl | hpart
    · simp
    · exact ih (fun hmem => h.2 (List.mem_of_mem_drop hmem)) hpart
  | case3 c cs hsep hnil ih =>
    rw [List.mem_cons, not_or] at h
    rw [List.mem_singleton.mp hpart]
    simpa using h.1
  | case4 c cs hsep first rest hsplit ih =>
    rw [List.mem_cons, not_or] at h
    have ih : ∀ part ∈ first :: rest, '$' ∉ part := fun part hpart => ih h.2 (hsplit ▸ hpart)
    rcases List.mem_cons.mp hpart with rfl | hpart
    · rw [List.mem_cons, not_or]
      exact ⟨h.1, ih first List.mem_cons_self⟩
    · exact ih part (List.mem_cons_of_mem _ hpart)

/-! ## Title case -/

theorem ofNat_ne_dollar {n : Nat} (h : 0x24 < n) : Char.ofNat n ≠ '$' := by
  by_cases hvalid : n.isValidChar
  · have hn : Char.ofNat n = Char.ofNatAux n hvalid := dif_pos hvalid
    rw [hn]
    intro heq
    have htoNat : n = 0x24 := congrArg Char.toNat heq
    omega
  · have hn : Char.ofNat n = ⟨0, by decide⟩ := dif_neg hvalid
    rw [hn]
    decide

/-- No character maps to a dollar sign if the tables lead beyond it. -/
theorem dollar_not_mem_mapCase {sequences : List (Nat × List Nat)} {shifts : List Shift}
    (hsequences : sequences.all fun s => s.2.all (0x24 < ·))
    (hshifts : shifts.all fun s => 0x24 < s.lo + s.delta) {c : Char} (hc : c ≠ '$') :
    '$' ∉ mapCase sequences shifts c := by
  unfold mapCase
  split
  · rename_i codes hlookup
    obtain ⟨_, _, rfl, -⟩ := List.lookup_eq_some_iff.mp hlookup
    have hcodes := List.all_eq_true.mp hsequences (c.toNat, codes) (by simp)
    rw [List.mem_map]
    rintro ⟨n, hn, hdollar⟩
    exact ofNat_ne_dollar (by simpa using List.all_eq_true.mp hcodes n hn) hdollar
  · rw [List.mem_singleton]
    cases hfind : shifts.findSome? (·.image? c.toNat) with
    | none => simpa using Ne.symm hc
    | some n =>
      obtain ⟨s, hs, himage⟩ := List.exists_of_findSome?_eq_some hfind
      have hs := List.all_eq_true.mp hshifts s hs
      simp only [Shift.image?, Shift.moves, Option.ite_none_right_eq_some, Bool.and_eq_true,
        decide_eq_true_eq, Option.some.injEq] at himage hs
      exact Ne.symm (ofNat_ne_dollar (by simp only [Option.getD_some]; omega))

theorem Closed.titleCase {s : String} (h : Closed s) : Closed (titleCase s) := by
  rw [Text.titleCase, closed_ofList]
  unfold Closed at h
  generalize s.toList = cs at h
  generalize false = inWord
  induction cs generalizing inWord with
  | nil => exact h
  | cons c cs ih =>
    rw [List.mem_cons, not_or] at h
    have hc : c ≠ '$' := Ne.symm h.1
    have hupper : '$' ∉ upperCase c :=
      dollar_not_mem_mapCase (by decide +kernel) (by decide +kernel) hc
    have hlower : '$' ∉ lowerCase c :=
      dollar_not_mem_mapCase (by decide +kernel) (by decide +kernel) hc
    rw [titleChars]
    split
    · rw [List.mem_append, not_or]
      exact ⟨by split <;> assumption, ih h.2 true⟩
    · rw [List.mem_cons, not_or]
      exact ⟨h.1, ih h.2 false⟩

end IntervalSuite.Template
