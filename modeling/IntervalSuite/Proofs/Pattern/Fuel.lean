import IntervalSuite.Proofs.Pattern.Reading

/-!
# Fuel of the readers

The readers of nested terms spend fuel. Fuel that is in proportion to the length of a text is enough
for it: what is read with some fuel is read with every larger one.

* `class?_of_fuel`: classes.
* `choice?_of_fuel`: choices, sequences and terms.
-/

namespace IntervalSuite.Pattern

variable {verbose : Bool} {α β : Type}

/-- Two computations of which the second has the results of the first. -/
theorem bind_mono {x x' : Option α} {k k' : α → Option β} {b : β} (h : x.bind k = some b)
    (hx : ∀ a, x = some a → x' = some a)
    (hk : ∀ a, x = some a → k a = some b → k' a = some b) : x'.bind k' = some b := by
  obtain ⟨a, ha, hb⟩ := Option.bind_eq_some_iff.mp h
  rw [hx a ha]
  exact hk a ha hb

theorem map_mono {x x' : Option α} {k : α → β} {b : β} (h : x.map k = some b)
    (hx : ∀ a, x = some a → x' = some a) : x'.map k = some b := by
  obtain ⟨a, ha, hb⟩ := Option.map_eq_some_iff.mp h
  rw [hx a ha, ← hb]
  rfl

theorem length_skip_le (verbose : Bool) (cs : List Char) : (skip verbose cs).length ≤ cs.length :=
  (gather_suffix verbose _ false cs).length_le

theorem length_of_next? {cs rest : List Char} {c : Char} (h : next? verbose cs = some (c, rest)) :
    rest.length < cs.length := by
  have hle := length_skip_le verbose cs
  cases hcs : skip verbose cs with
  | nil => simp [next?, hcs, first?] at h
  | cons d ds =>
    simp only [next?, hcs, first?, Option.some.injEq, Prod.mk.injEq] at h
    simp only [hcs, List.length_cons, h.2] at hle
    exact hle

theorem length_classStart_le (verbose : Bool) (cs : List Char) :
    (classStart verbose (classSign (skip verbose cs)).2).2.length ≤ cs.length := by
  have hsign : (classSign (skip verbose cs)).2 <:+ skip verbose cs :=
    guarded_classSign.suffix _ _ _ rfl
  have hstart : (classStart verbose (classSign (skip verbose cs)).2).2 <:+ _ :=
    guarded_classStart.suffix _ _ _ rfl
  exact Nat.le_trans (hstart.trans hsign).length_le (length_skip_le verbose cs)

/-- A class is read with any fuel that is large enough for its text. -/
theorem class?_of_fuel (close : CharSet → CharSet) (n : Nat) :
    (∀ m cs r, class? verbose close n cs = some r → 2 * cs.length + 2 ≤ m →
      class? verbose close m cs = some r) ∧
    ∀ m state cs r, classItems? verbose close n state cs = some r → 2 * cs.length + 1 ≤ m →
      classItems? verbose close m state cs = some r := by
  induction n with
  | zero => exact ⟨fun m cs r h => (by cases h), fun m state cs r h => (by cases h)⟩
  | succ n ih =>
    refine ⟨fun m cs r h hm => ?_, fun m state cs r h hm => ?_⟩
    · obtain ⟨m, rfl⟩ := Nat.exists_eq_succ_of_ne_zero (by omega : m ≠ 0)
      have hle := length_classStart_le verbose cs
      exact map_mono h fun a ha =>
        ih.2 m ⟨none, (classStart verbose (classSign (skip verbose cs)).2).1⟩
          (classStart verbose (classSign (skip verbose cs)).2).2 a ha (by omega)
    · obtain ⟨m, rfl⟩ := Nat.exists_eq_succ_of_ne_zero (by omega : m ≠ 0)
      refine bind_mono h (fun _ => id) fun a ha h => ?_
      obtain ⟨c, rest⟩ := a
      have hlt := length_of_next? ha
      dsimp only at h ⊢
      split at h
      · next hc => rwa [if_pos hc]
      · next hc =>
        rw [if_neg hc]
        cases hop : classOperation? c rest with
        | some r =>
          have hle := (classOperation?_suffix c rest _ _ hop).length_le
          simp only [hop] at h ⊢
          exact ih.2 m _ _ _ h (by omega)
        | none =>
          simp only [hop] at h ⊢
          have hentry : ∀ a, (if c = '[' then namedSet? rest <|> class? verbose close n rest
              else classItem? verbose c rest) = some a → a.2.length ≤ rest.length ∧
              (if c = '[' then namedSet? rest <|> class? verbose close m rest
                else classItem? verbose c rest) = some a := by
            intro a ha
            split at ha
            · next hc =>
              refine ⟨?_, ?_⟩
              · exact ((Guarded.alternative namedSet?_suffix leavesOver_namedSet?
                  (guarded_class? close n).1).suffix rest a.1 a.2 ha).length_le
              · rw [if_pos hc]
                cases hset : namedSet? rest with
                | some b => simpa [hset] using ha
                | none => simpa [hset] using ih.1 m rest a (by simpa [hset] using ha) (by omega)
            · next hc =>
              exact ⟨((guarded_classItem? c).suffix rest a.1 a.2 ha).length_le, by rwa [if_neg hc]⟩
          exact bind_mono h (fun a ha => (hentry a ha).2) fun a ha h =>
            ih.2 m _ _ _ h (by have := (hentry a ha).1; omega)

theorem length_of_repetition? {cs rest : List Char} {bounds : Bounds}
    (h : repetition? verbose cs = some (some bounds, rest)) : rest.length < cs.length := by
  cases cs with
  | nil => cases h
  | cons c cs =>
    obtain ⟨-, hsign⟩ | hother := @repetition?_cons verbose c
    · exact Nat.lt_succ_of_le (hsign.suffix cs _ rest h).length_le
    · rw [hother] at h
      cases h

/-- Each sign behind a term costs one unit of fuel. -/
theorem repeated?_of_fuel (flags : Flags) (n : Nat) : ∀ m term cs r,
    repeated? flags n term cs = some r → cs.length + 1 ≤ m → repeated? flags m term cs = some r := by
  induction n with
  | zero => exact fun m term cs r h => (by cases h)
  | succ n ih =>
    intro m term cs r h hm
    obtain ⟨m, rfl⟩ := Nat.exists_eq_succ_of_ne_zero (by omega : m ≠ 0)
    refine bind_mono h (fun _ => id) fun a ha h => ?_
    obtain ⟨sign, rest⟩ := a
    cases sign with
    | none => exact h
    | some bounds =>
      have hlazy : (lazySign rest).2 <:+ rest := guarded_lazySign.suffix _ _ _ rfl
      have hrest := length_of_repetition? ha
      have hskip := length_skip_le flags.verbose cs
      have := hlazy.length_le
      exact ih m _ (lazySign rest).2 r h (by omega)

/-! ## Choices, sequences and terms

A choice hands the same text on to a sequence; a sequence has taken a character before it calls the
reader of terms, and that one may call the reader of choices at once. So a character is worth three
units. -/

/-- What the fuel `n` gives for a choice is given by all fuel that is large enough. -/
def ChoiceFuel (n : Nat) : Prop :=
  ∀ m ctx cs r, choice? n ctx cs = some r → 3 * cs.length + 3 ≤ m → choice? m ctx cs = some r

def SequenceFuel (n : Nat) : Prop :=
  ∀ m ctx cs r, sequence? n ctx cs = some r → 3 * cs.length + 2 ≤ m → sequence? m ctx cs = some r

def TermFuel (n : Nat) : Prop :=
  ∀ m ctx c cs r, term? n ctx c cs = some r → 3 * cs.length + 4 ≤ m → term? m ctx c cs = some r

section

variable {n : Nat} (hchoice : ChoiceFuel n) (hsequence : SequenceFuel n) (hterm : TermFuel n)

include hchoice hsequence in
theorem choiceFuel_succ : ChoiceFuel (n + 1) := by
  intro m ctx cs r h hm
  obtain ⟨m, rfl⟩ := Nat.exists_eq_succ_of_ne_zero (by omega : m ≠ 0)
  have hskip := length_skip_le ctx.flags.verbose cs
  refine bind_mono h (fun a ha => hsequence m ctx _ a ha (by omega)) fun a ha h => ?_
  obtain ⟨⟨first, ctx'⟩, rest⟩ := a
  have hrest := (((guarded_choice? n).2.1 ctx).suffix _ _ _ ha).length_le
  cases rest with
  | nil => exact h
  | cons c rest =>
    rw [List.length_cons] at hrest
    by_cases hc : c = '|'
    · subst hc
      exact bind_mono h (fun a ha => hchoice m ctx' rest a ha (by omega)) fun _ _ => id
    · simpa [hc] using h

include hsequence hterm in
theorem sequenceFuel_succ : SequenceFuel (n + 1) := by
  intro m ctx cs r h hm
  obtain ⟨m, rfl⟩ := Nat.exists_eq_succ_of_ne_zero (by omega : m ≠ 0)
  cases cs with
  | nil => exact h
  | cons c cs =>
    rw [List.length_cons] at hm
    rw [sequence?] at h ⊢
    split at h
    · next hc => rwa [if_pos hc]
    · next hc =>
      rw [if_neg hc]
      refine bind_mono h (fun a ha => hterm m ctx c cs a ha (by omega)) fun a ha h => ?_
      obtain ⟨⟨term, ctx'⟩, rest⟩ := a
      have hrest := (((guarded_choice? n).2.2 ctx c).suffix _ _ _ ha).length_le
      cases term with
      | none =>
        have hskip := length_skip_le ctx'.flags.verbose rest
        exact hsequence m ctx' _ r h (by omega)
      | some term =>
        refine bind_mono h (fun a ha => repeated?_of_fuel _ n m _ _ a ha (by omega))
          fun a ha h => ?_
        obtain ⟨term', rest'⟩ := a
        have hrest' := ((guarded_repeated? _ n _).suffix _ _ _ ha).length_le
        exact bind_mono h (fun a ha => hsequence m ctx' rest' a ha (by omega)) fun _ _ => id

include hchoice in
theorem termFuel_succ : TermFuel (n + 1) := by
  intro m ctx c cs r h hm
  obtain ⟨m, rfl⟩ := Nat.exists_eq_succ_of_ne_zero (by omega : m ≠ 0)
  rw [term?] at h ⊢
  split at h
  · next hc =>
    rw [if_pos hc]
    have hskip := length_skip_le ctx.flags.verbose cs
    refine bind_mono h (fun _ => id) fun a ha h => ?_
    obtain ⟨opening, rest⟩ := a
    have hrest := ((guarded_opening? ctx.flags).suffix _ _ _ ha).length_le
    cases opening with
    | flags flags => exact h
    | plain flags =>
      exact bind_mono h (fun a ha => hchoice m _ rest a ha (by omega)) fun _ _ => id
    | capture name =>
      refine bind_mono h (fun _ => id) fun start _ h => ?_
      exact bind_mono h (fun a ha => hchoice m start rest a ha (by omega)) fun _ _ => id
  · next hc =>
    rw [if_neg hc]
    split at h
    · next hclass =>
      rw [if_pos hclass]
      exact map_mono h fun a ha => (class?_of_fuel _ n).1 m cs a ha (by omega)
    · next hclass => rwa [if_neg hclass]

end

/-- A pattern is read with any fuel that is large enough for its text. -/
theorem choice?_of_fuel (n : Nat) : ChoiceFuel n ∧ SequenceFuel n ∧ TermFuel n := by
  induction n with
  | zero =>
    exact ⟨fun m ctx cs r h => (by cases h), fun m ctx cs r h => (by cases h),
      fun m ctx c cs r h => (by cases h)⟩
  | succ n ih =>
    obtain ⟨hchoice, hsequence, hterm⟩ := ih
    exact ⟨choiceFuel_succ hchoice hsequence, sequenceFuel_succ hsequence hterm,
      termFuel_succ hchoice⟩

end IntervalSuite.Pattern
