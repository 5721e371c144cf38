import Mathlib.Data.List.TakeWhile

/-!
# Runs of characters

A scanner takes a run of characters of one kind off the start of a text. `Stops p rest` says that the
text `rest` does not continue such a run, so that the run in front of it is taken whole.
-/

namespace IntervalSuite.Text

/-- No character of the kind `p` stands at the start of the text. -/
def Stops (p : Char → Bool) (cs : List Char) : Prop := ∀ c ∈ cs.head?, p c = false

instance (p : Char → Bool) : DecidablePred (Stops p)
  | [] => .isTrue (by simp [Stops])
  | c :: _ => decidable_of_iff (p c = false) (by simp [Stops])

theorem Stops.cons {p : Char → Bool} {c : Char} (h : p c = false) (cs : List Char) :
    Stops p (c :: cs) := by
  intro d hd
  obtain rfl : c = d := by simpa using hd
  exact h

theorem stops_dropWhile (p : Char → Bool) (cs : List Char) : Stops p (cs.dropWhile p) := by
  intro c hc
  have h := List.head?_dropWhile_not p cs
  rw [hc] at h
  simpa using h

theorem Stops.dropWhile_eq {p : Char → Bool} {cs : List Char} (h : Stops p cs) :
    cs.dropWhile p = cs := by
  cases cs with
  | nil => rfl
  | cons c cs => rw [List.dropWhile_cons, h c rfl, if_neg Bool.false_ne_true]

/-- A text is a run of characters of one kind and a text that does not continue it. -/
theorem exists_run (p : Char → Bool) (cs : List Char) :
    ∃ run rest, cs = run ++ rest ∧ (∀ c ∈ run, p c) ∧ Stops p rest :=
  ⟨cs.takeWhile p, cs.dropWhile p, List.takeWhile_append_dropWhile.symm,
    fun _ hc => List.mem_takeWhile_imp hc, stops_dropWhile p cs⟩

/-- A text that does not continue a run does not change what is taken in front of it. -/
theorem takeWhile_append_stops {p : Char → Bool} {rest : List Char} (hr : Stops p rest)
    (cs : List Char) : (cs ++ rest).takeWhile p = cs.takeWhile p := by
  have hnil : rest.takeWhile p = [] := by
    cases rest with
    | nil => rfl
    | cons c rest => rw [List.takeWhile_cons, hr c rfl]; rfl
  rw [List.takeWhile_append, hnil, List.append_nil]
  split
  · rename_i hlen
    exact (List.IsPrefix.eq_of_length (List.takeWhile_prefix p) hlen).symm
  · rfl

/-- A run in front of a text that does not continue it is taken whole. -/
theorem takeWhile_run {p : Char → Bool} {run rest : List Char} (h : ∀ c ∈ run, p c)
    (hr : Stops p rest) : (run ++ rest).takeWhile p = run := by
  rw [takeWhile_append_stops hr, List.takeWhile_eq_self_iff.mpr h]

/-- A text stops a run if the first of its parts that is there does. -/
theorem Stops.append {p : Char → Bool} {cs rest : List Char} (h : Stops p cs)
    (hr : Stops p rest) : Stops p (cs ++ rest) := by
  cases cs with
  | nil => exact hr
  | cons c cs => exact .cons (h c rfl) _

/-- What follows the start of a text does not matter for where a run stops. -/
theorem Stops.replace {p : Char → Bool} {u rest rest' : List Char} (h : Stops p (u ++ rest))
    (hnil : u = [] → Stops p rest') : Stops p (u ++ rest') := by
  cases u with
  | nil => exact hnil rfl
  | cons c u => exact .cons (h c rfl) _

end IntervalSuite.Text
