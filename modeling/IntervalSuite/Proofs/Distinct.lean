import Mathlib.Data.List.Induction
import Mathlib.Data.List.Nodup

/-!
# Items that are kept once

A list is freed of repetitions by keeping the first of equal items (`List.eraseDups`).

* `firstOccurrences_eraseDups`: the items that are kept, and their order.
* `eraseDups_append_filter`: of the second of two lists, those items are kept that are not in the
  first one.
-/

namespace IntervalSuite

section

variable {α : Type} [DecidableEq α]

/-- A list without repetitions is kept as it is. -/
theorem eraseDups_of_nodup {xs : List α} (h : xs.Nodup) : xs.eraseDups = xs := by
  induction xs with
  | nil => rfl
  | cons x xs ih =>
    obtain ⟨hx, hxs⟩ := List.nodup_cons.mp h
    have hkeep : xs.filter (fun y => !(y == x)) = xs := by
      refine List.filter_eq_self.mpr fun y hy => ?_
      have hne : y ≠ x := fun heq => hx (heq ▸ hy)
      simpa using hne
    rw [List.eraseDups_cons, hkeep, ih hxs]

/-- It does not matter whether repetitions are removed first or items that are not wanted. -/
theorem eraseDups_filter (p : α → Bool) (xs : List α) :
    (xs.filter p).eraseDups = xs.eraseDups.filter p := by
  -- The recursion is on what is left of the list without the items equal to its first one.
  induction hn : xs.length using Nat.strongRecOn generalizing xs with
  | ind n ih =>
    cases xs with
    | nil => rfl
    | cons x xs =>
      have hshort : (xs.filter fun y => !(y == x)).length < n := by
        have := List.length_filter_le (fun y => !(y == x)) xs
        rw [List.length_cons] at hn
        omega
      have ih := ih _ hshort _ rfl
      rw [List.eraseDups_cons]
      by_cases hx : p x
      · rw [List.filter_cons_of_pos hx, List.filter_cons_of_pos hx, List.eraseDups_cons, ← ih,
          List.filter_comm]
      · have hother : xs.filter p = (xs.filter fun y => !(y == x)).filter p := by
          rw [List.filter_filter]
          refine List.filter_congr fun y _ => ?_
          by_cases hy : y = x
          · simpa [hy] using hx
          · simp [hy]
        rw [List.filter_cons_of_neg hx, List.filter_cons_of_neg hx, ← ih, hother]

/-- Of the second of two lists, those items are kept that are not in the first one. -/
theorem eraseDups_append_filter (xs ys : List α) :
    (xs ++ ys).eraseDups = xs.eraseDups ++ ys.eraseDups.filter (· ∉ xs.eraseDups) := by
  rw [List.eraseDups_append, List.removeAll, eraseDups_filter]
  congr 1
  refine List.filter_congr fun y _ => ?_
  simp

end

/-- `firsts` holds the items of `all`, each of them once, in the order of their first occurrences. -/
structure FirstOccurrences {α : Type} [DecidableEq α] (all firsts : List α) : Prop where
  nodup : firsts.Nodup
  mem_iff : ∀ a, a ∈ firsts ↔ a ∈ all
  ordered : firsts.Pairwise fun a b => all.idxOf a < all.idxOf b

theorem firstOccurrences_eraseDups {α : Type} [DecidableEq α] (xs : List α) :
    FirstOccurrences xs xs.eraseDups := by
  -- The list grows at its end, where an item is added if it is not there yet.
  induction xs using List.reverseRecOn with
  | nil => exact ⟨.nil, by simp, .nil⟩
  | append_singleton xs x ih =>
    have hidx : ∀ a ∈ xs, (xs ++ [x]).idxOf a = xs.idxOf a := fun a ha => List.idxOf_append_of_mem ha
    have hordered : xs.eraseDups.Pairwise fun a b =>
        (xs ++ [x]).idxOf a < (xs ++ [x]).idxOf b := by
      refine ih.ordered.imp_of_mem fun {a b} ha hb hab => ?_
      rwa [hidx a ((ih.mem_iff a).mp ha), hidx b ((ih.mem_iff b).mp hb)]
    rw [List.eraseDups_append]
    by_cases hx : x ∈ xs
    · have hnone : [x].removeAll xs = [] := by simp [List.removeAll, hx]
      rw [hnone, List.eraseDups_nil, List.append_nil]
      refine ⟨ih.nodup, fun a => ?_, hordered⟩
      rw [ih.mem_iff, List.mem_append, List.mem_singleton]
      exact ⟨.inl, fun h => h.elim id fun h => h ▸ hx⟩
    · have hone : [x].removeAll xs = [x] := by simp [List.removeAll, hx]
      have hsingle : [x].eraseDups = [x] := by simp [List.eraseDups_cons]
      have hlast : ∀ a ∈ xs.eraseDups, a ≠ x := fun a ha h => hx ((ih.mem_iff x).mp (h ▸ ha))
      rw [hone, hsingle]
      refine ⟨?_, fun a => ?_, ?_⟩
      · refine List.nodup_append.mpr ⟨ih.nodup, List.pairwise_singleton _ x, fun a ha b hb => ?_⟩
        rw [List.mem_singleton.mp hb]
        exact hlast a ha
      · rw [List.mem_append, List.mem_append, ih.mem_iff]
      · refine List.pairwise_append.mpr ⟨hordered, List.pairwise_singleton _ x, fun a ha b hb => ?_⟩
        have hmem := (ih.mem_iff a).mp ha
        rw [List.mem_singleton.mp hb, hidx a hmem, List.idxOf_append_of_notMem hx]
        exact Nat.lt_add_right _ (List.idxOf_lt_length_of_mem hmem)

end IntervalSuite
