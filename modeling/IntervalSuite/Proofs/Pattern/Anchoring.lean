import IntervalSuite.Proofs.Pattern.Enclosing
import IntervalSuite.Readers.Standard
import Mathlib.Data.List.Perm.Subperm
import Mathlib.Data.List.ProdSigma

/-!
# Matching at the start of a text

The program of a pattern in a group behind `^` is the program of the pattern, moved by one
instruction, behind a check that only the start of the text passes.

* `Regex.code_add`: the program of a regular expression does not depend on where it stands, up to its
  targets.
* `follow_append`: a program that is moved runs as it does in its own place.
* `follow_of_fuel`: a run does not depend on its fuel. No instruction is carried out twice at one
  place of the text, and each of them leads to at most two threads.
* `matchEnd?_anchored`: a pattern in a group matches what the pattern matches at the start of a text.
-/

namespace IntervalSuite.Pattern

/-! ## Moving programs -/

/-- The instruction with its targets moved by `d`. -/
def Instruction.shift (d : Nat) : Instruction → Instruction
  | take set => take set
  | check assertion => check assertion
  | mark number => mark number
  | jump target => jump (d + target)
  | split first second => split (d + first) (d + second)

@[simp]
theorem shift_jump (d target : Nat) : (Instruction.jump target).shift d = .jump (d + target) := rfl

theorem shift_repetitionSplit (d : Nat) (greedy : Bool) (body behind : Nat) :
    (repetitionSplit greedy body behind).shift d = repetitionSplit greedy (d + body) (d + behind) := by
  cases greedy <;> rfl

section Moving

variable {code : Nat → List Instruction} {d : Nat}

theorem rounds_add (hcode : ∀ start, code (d + start) = (code start).map (.shift d))
    (n start : Nat) : rounds code n (d + start) = (rounds code n start).map (.shift d) := by
  induction n generalizing start with
  | zero => rfl
  | succ n ih => simp only [rounds, List.map_append, hcode, List.length_map, Nat.add_assoc, ih]

theorem optionalRounds_add (hcode : ∀ start, code (d + start) = (code start).map (.shift d))
    (greedy : Bool) (behind n start : Nat) :
    optionalRounds code greedy (d + behind) n (d + start) =
      (optionalRounds code greedy behind n start).map (.shift d) := by
  induction n generalizing start with
  | zero => rfl
  | succ n ih =>
    simp only [optionalRounds, List.map_append, List.map_cons, shift_repetitionSplit, hcode,
      List.length_map, Nat.add_assoc, ih]

theorem roundsFromOne_add (hcode : ∀ start, code (d + start) = (code start).map (.shift d))
    (greedy : Bool) (start : Nat) :
    roundsFromOne code greedy (d + start) = (roundsFromOne code greedy start).map (.shift d) := by
  simp only [roundsFromOne, List.map_append, List.map_cons, List.map_nil, shift_repetitionSplit,
    hcode, List.length_map, Nat.add_assoc]

theorem repetitionCode_add (hcode : ∀ start, code (d + start) = (code start).map (.shift d))
    (nullable : Bool) (least : Nat) (most : Option Nat) (greedy : Bool) (start : Nat) :
    repetitionCode code nullable least most greedy (d + start) =
      (repetitionCode code nullable least most greedy start).map (.shift d) := by
  cases most with
  | none =>
    cases least with
    | zero =>
      cases nullable <;>
        simp [repetitionCode, roundsFromOne_add hcode, shift_repetitionSplit, hcode, Nat.add_assoc]
    | succ n =>
      simp [repetitionCode, rounds_add hcode, roundsFromOne_add hcode, Nat.add_assoc]
  | some m =>
    simp [repetitionCode, rounds_add hcode, optionalRounds_add hcode, hcode, Nat.add_assoc]

end Moving

theorem Regex.code_add (regex : Regex) (d start : Nat) :
    regex.code (d + start) = (regex.code start).map (.shift d) := by
  induction regex generalizing start with
  | empty => rfl
  | set => rfl
  | assertion => rfl
  | group index body ih => simp [code, Nat.add_assoc, ih, Instruction.shift]
  | seq first second ih₁ ih₂ => simp [code, Nat.add_assoc, ih₁, ih₂]
  | alt first second ih₁ ih₂ => simp [code, Nat.add_assoc, ih₁, ih₂, Instruction.shift]
  | repetition body least most greedy ih => exact repetitionCode_add ih _ _ _ _ _

/-- The threads of an instruction that has been moved are its threads, moved. -/
theorem threads_shift (instruction : Instruction) (d counter : Nat) (place : Place) :
    (instruction.shift d).threads (d + counter) place =
      (instruction.threads counter place).map fun t => (d + t.1, t.2) := by
  cases instruction with
  | take set =>
    obtain ⟨index, before, rest, marks⟩ := place
    cases rest with
    | nil => rfl
    | cons c cs =>
      simp only [Instruction.shift, Instruction.threads]
      split <;> rfl
  | check assertion =>
    simp only [Instruction.shift, Instruction.threads]
    split <;> rfl
  | mark number => rfl
  | jump target => rfl
  | split first second => rfl

/-- A program behind other instructions runs as it does alone. -/
theorem follow_append (front program : List Instruction) (fuel : Nat) :
    ∀ (seen seen' : List (Nat × Nat)) (threads : List (Nat × Place)),
      (∀ counter index, seen'.contains (front.length + counter, index) =
        seen.contains (counter, index)) →
      follow (front ++ program.map (.shift front.length)) fuel seen'
        (threads.map fun t => (front.length + t.1, t.2)) = follow program fuel seen threads := by
  induction fuel with
  | zero => exact fun _ _ _ _ => rfl
  | succ fuel ih =>
    intro seen seen' threads hseen
    cases threads with
    | nil => rfl
    | cons thread threads =>
      obtain ⟨counter, place⟩ := thread
      have hget : (front ++ program.map (.shift front.length))[front.length + counter]? =
          program[counter]?.map (.shift front.length) := by
        rw [List.getElem?_append_right (Nat.le_add_right _ _), Nat.add_sub_cancel_left,
          List.getElem?_map]
      simp only [List.map_cons, follow, hseen, hget]
      split
      · exact ih seen seen' threads hseen
      · cases program[counter]? with
        | none => rfl
        | some instruction =>
          simp only [Option.map_some, threads_shift, ← List.map_append]
          refine ih _ _ _ fun c i => ?_
          simp only [List.contains_cons, hseen]
          congr 1
          rw [Bool.eq_iff_iff]
          simp

/-! ## Fuel -/

/-- The instructions that have been carried out, at places of a text of length `size`. -/
structure Seen (program : List Instruction) (size : Nat) (seen : List (Nat × Nat)) : Prop where
  nodup : seen.Nodup
  counter_lt : ∀ pair ∈ seen, pair.1 < program.length
  index_le : ∀ pair ∈ seen, pair.2 ≤ size

theorem Seen.length_le {program : List Instruction} {size : Nat} {seen : List (Nat × Nat)}
    (h : Seen program size seen) : seen.length ≤ program.length * (size + 1) := by
  have hsub : seen ⊆ List.range program.length ×ˢ List.range (size + 1) := by
    intro pair hpair
    rw [List.mem_product, List.mem_range, List.mem_range]
    exact ⟨h.counter_lt pair hpair, Nat.lt_succ_of_le (h.index_le pair hpair)⟩
  simpa [List.length_product] using (h.nodup.subperm hsub).length_le

/-- An instruction leads to at most two threads, at places of the same text. -/
theorem threads_spec (instruction : Instruction) (counter : Nat) (place : Place) :
    (instruction.threads counter place).length ≤ 2 ∧
      ∀ t ∈ instruction.threads counter place,
        t.2.index + t.2.rest.length = place.index + place.rest.length := by
  cases instruction with
  | take set =>
    obtain ⟨index, before, rest, marks⟩ := place
    cases rest with
    | nil => simp [Instruction.threads]
    | cons c cs =>
      simp only [Instruction.threads, Place.advance]
      split
      · simp [Nat.add_comm cs.length, Nat.add_assoc]
      · simp
  | check assertion =>
    simp only [Instruction.threads]
    split <;> simp
  | mark number => simp [Instruction.threads, Place.mark]
  | jump target => simp [Instruction.threads]
  | split first second => simp [Instruction.threads]

/-- **A run does not depend on its fuel.** The instructions at places of the text that have not been
carried out, counted twice, and the threads that wait get fewer with each step. -/
theorem follow_of_fuel {program : List Instruction} {size : Nat} (fuel : Nat) :
    ∀ (m : Nat) (seen : List (Nat × Nat)) (threads : List (Nat × Place)),
      Seen program size seen → (∀ t ∈ threads, t.2.index + t.2.rest.length = size) →
      2 * (program.length * (size + 1) - seen.length) + threads.length < fuel → fuel ≤ m →
      follow program m seen threads = follow program fuel seen threads := by
  induction fuel with
  | zero => exact fun m seen threads _ _ h => absurd h (Nat.not_lt_zero _)
  | succ fuel ih =>
    intro m seen threads hseen hplaces hfuel hm
    obtain ⟨m, rfl⟩ := Nat.exists_eq_succ_of_ne_zero (by omega : m ≠ 0)
    cases threads with
    | nil => rfl
    | cons thread threads =>
      obtain ⟨counter, place⟩ := thread
      have hthreads := fun t ht => hplaces t (List.mem_cons_of_mem _ ht)
      rw [List.length_cons] at hfuel
      simp only [follow]
      split
      · exact ih m seen threads hseen hthreads (by omega) (by omega)
      · next hnew =>
        cases hget : program[counter]? with
        | none => rfl
        | some instruction =>
          have hplace : place.index ≤ size := by
            have := hplaces (counter, place) List.mem_cons_self
            dsimp only at this
            omega
          have hseen' : Seen program size ((counter, place.index) :: seen) := by
            refine ⟨List.nodup_cons.mpr ⟨by simpa using hnew, hseen.nodup⟩, ?_, ?_⟩
            · exact List.forall_mem_cons.mpr
                ⟨(List.getElem?_eq_some_iff.mp hget).1, hseen.counter_lt⟩
            · exact List.forall_mem_cons.mpr ⟨hplace, hseen.index_le⟩
          have hle := hseen'.length_le
          obtain ⟨htwo, hsame⟩ := threads_spec instruction counter place
          rw [List.length_cons] at hle
          refine ih m _ _ hseen' ?_ ?_ (by omega)
          · intro t ht
            obtain ht | ht := List.mem_append.mp ht
            · exact (hsame t ht).trans (hplaces (counter, place) List.mem_cons_self)
            · exact hthreads t ht
          · rw [List.length_append, List.length_cons]
            omega

/-! ## The start -/

theorem code_anchored (regex : Regex) :
    regex.anchored.code 0 = [.check .start] ++ (regex.code 0).map (.shift 1) := by
  simp [Regex.anchored, Regex.code, ← Regex.code_add]

/-- At the start of a text the pattern goes on as the given one does. -/
theorem matchAt?_anchored (regex : Regex) (text : List Char) :
    matchAt? (regex.anchored.code 0) ⟨0, none, text, []⟩ =
      matchAt? (regex.code 0) ⟨0, none, text, []⟩ := by
  -- The check passes, and what follows is the program of the pattern in another place.
  have hstep : ∀ fuel, follow (regex.anchored.code 0) (fuel + 1) [] [(0, ⟨0, none, text, []⟩)] =
      follow (regex.anchored.code 0) fuel [(0, 0)] [(1, ⟨0, none, text, []⟩)] := by
    intro fuel
    rw [code_anchored]
    rfl
  have hmoved : ∀ fuel, follow (regex.anchored.code 0) fuel [(0, 0)] [(1, ⟨0, none, text, []⟩)] =
      follow (regex.code 0) fuel [] [(0, ⟨0, none, text, []⟩)] := by
    intro fuel
    rw [code_anchored]
    refine follow_append [.check .start] (regex.code 0) fuel [] [(0, 0)] [(0, _)] fun c i => ?_
    simp
  have hlength : (regex.anchored.code 0).length = (regex.code 0).length + 1 := by
    simp [code_anchored, Nat.add_comm]
  -- The longer program has more fuel, which makes no difference.
  simp only [matchAt?, hlength]
  rw [hstep, hmoved]
  have hseen : Seen (regex.code 0) text.length [] := ⟨List.nodup_nil, by simp, by simp⟩
  refine follow_of_fuel _ _ [] [(0, _)] hseen (by simp) ?_ ?_
  · simp only [List.length_nil, List.length_singleton, Nat.mul_assoc, Nat.add_mul]
    omega
  · simp only [Nat.mul_assoc, Nat.add_mul]
    omega

/-- Behind the start the pattern does not match. -/
theorem matchAt?_anchored_eq_none (regex : Regex) (index : Nat) (c : Char) (rest : List Char) :
    matchAt? (regex.anchored.code 0) ⟨index, some c, rest, []⟩ = none := by
  have hstep : ∀ fuel, follow (regex.anchored.code 0) (fuel + 2) []
      [(0, ⟨index, some c, rest, []⟩)] = none := by
    intro fuel
    rw [code_anchored]
    rfl
  rw [matchAt?]
  exact hstep _

/-- There is a character in front of every place behind the start. -/
theorem exists_character_before {text : String} {n : Nat} (h : n + 1 ≤ text.length) :
    ∃ c, (text.toList.take (n + 1)).getLast? = some c := by
  rw [← Option.ne_none_iff_exists', ne_eq, List.getLast?_eq_none_iff, List.take_eq_nil_iff]
  rintro (hzero | hnil)
  · cases hzero
  · rw [← String.length_toList, hnil] at h
    cases h

/-- **A pattern in a group** behind `^` matches what the pattern matches at the start of a text. -/
theorem matchEnd?_anchored {source : String} {p q : IntervalSuite.Pattern}
    (hp : parse? source = some p) (hq : parse? ("^(?:" ++ source ++ ")") = some q) (text : String)
    (start : Nat) :
    q.matchEnd? text start = if start = 0 then p.matchEnd? text 0 else none := by
  obtain ⟨⟨regex, names⟩, hregex, rfl⟩ := Option.map_eq_some_iff.mp hp
  obtain ⟨⟨whole, names'⟩, hwhole, rfl⟩ := Option.map_eq_some_iff.mp hq
  rw [toList_anchored] at hwhole
  obtain ⟨rfl, rfl⟩ := regex?_anchored hregex hwhole
  cases start with
  | zero => simp [matchEnd?, matchAt?_anchored]
  | succ n =>
    rw [if_neg (Nat.succ_ne_zero n), matchEnd?]
    split
    · rename_i hle
      obtain ⟨c, hc⟩ := exists_character_before hle
      rw [hc, matchAt?_anchored_eq_none, Option.map_none]
    · rfl

end IntervalSuite.Pattern
