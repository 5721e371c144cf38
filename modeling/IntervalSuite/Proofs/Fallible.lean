import Mathlib.Data.List.Forall2

/-!
# Computations that may fail

How a computation in `Except` is taken apart. Where it gives a value, each step before has given one;
where it fails, one step has failed and those before it have given values.
-/

namespace IntervalSuite

section

variable {ε α β : Type}

theorem bind_eq_ok_iff {x : Except ε α} {f : α → Except ε β} {b : β} :
    x >>= f = .ok b ↔ ∃ a, x = .ok a ∧ f a = .ok b := by
  cases x with
  | error e => simp [bind, Except.bind]
  | ok a => simp [bind, Except.bind]

theorem pure_eq_ok_iff {a b : α} : (pure a : Except ε α) = .ok b ↔ a = b := by
  simp [pure, Except.pure]

theorem bind_eq_error_iff {x : Except ε α} {f : α → Except ε β} {e : ε} :
    x >>= f = .error e ↔ x = .error e ∨ ∃ a, x = .ok a ∧ f a = .error e := by
  cases x with
  | error e' => simp [bind, Except.bind]
  | ok a => simp [bind, Except.bind]

/-- All items of a list have given a value. -/
theorem mapM_eq_ok_iff {f : α → Except ε β} {as : List α} {bs : List β} :
    as.mapM f = .ok bs ↔ List.Forall₂ (fun a b => f a = .ok b) as bs := by
  induction as generalizing bs with
  | nil =>
    rw [List.mapM_nil, pure_eq_ok_iff, List.forall₂_nil_left_iff]
    exact eq_comm
  | cons a as ih =>
    simp only [List.mapM_cons, bind_eq_ok_iff, pure_eq_ok_iff, List.forall₂_cons_left_iff, ih]
    constructor
    · rintro ⟨b, hb, bs, hbs, rfl⟩
      exact ⟨b, bs, hb, hbs, rfl⟩
    · rintro ⟨b, bs, hb, hbs, rfl⟩
      exact ⟨b, hb, bs, hbs, rfl⟩

/-- A value that has been given comes from an item. -/
theorem exists_of_mem_mapM {f : α → Except ε β} {as : List α} {bs : List β}
    (h : as.mapM f = .ok bs) {b : β} (hb : b ∈ bs) : ∃ a ∈ as, f a = .ok b := by
  have hall := mapM_eq_ok_iff.mp h
  induction hall with
  | nil => cases hb
  | cons hab htail ih =>
    rcases List.mem_cons.mp hb with rfl | hb
    · exact ⟨_, List.mem_cons_self, hab⟩
    · obtain ⟨a, ha, hok⟩ := ih (mapM_eq_ok_iff.mpr htail) hb
      exact ⟨a, List.mem_cons_of_mem _ ha, hok⟩

/-- An item has given a value. -/
theorem eq_ok_of_mapM {f : α → Except ε β} {as : List α} {bs : List β} (h : as.mapM f = .ok bs)
    {a : α} (ha : a ∈ as) : ∃ b ∈ bs, f a = .ok b := by
  have hall := mapM_eq_ok_iff.mp h
  clear h
  induction hall with
  | nil => cases ha
  | cons hab _ ih =>
    rcases List.mem_cons.mp ha with rfl | ha
    · exact ⟨_, List.mem_cons_self, hab⟩
    · obtain ⟨b, hb, hok⟩ := ih ha
      exact ⟨b, List.mem_cons_of_mem _ hb, hok⟩

/-- The items of all lists that have been given. -/
theorem mem_flatten_of_mapM {f : α → Except ε (List β)} {as : List α} {groups : List (List β)}
    (h : as.mapM f = .ok groups) {b : β} :
    b ∈ groups.flatten ↔ ∃ a ∈ as, ∃ group, f a = .ok group ∧ b ∈ group := by
  rw [List.mem_flatten]
  constructor
  · rintro ⟨group, hgroup, hb⟩
    obtain ⟨a, ha, hok⟩ := exists_of_mem_mapM h hgroup
    exact ⟨a, ha, group, hok, hb⟩
  · rintro ⟨a, ha, group, hok, hb⟩
    obtain ⟨group', hgroup', hok'⟩ := eq_ok_of_mapM h ha
    obtain rfl := Except.ok.inj (hok.symm.trans hok')
    exact ⟨group, hgroup', hb⟩

/-- Lists that follow each other as the items do from which they come. -/
theorem pairwise_flatten_of_mapM {f : α → Except ε (List β)} {as : List α}
    {groups : List (List β)} (h : as.mapM f = .ok groups) {r : α → α → Prop} {s : β → β → Prop}
    (has : as.Pairwise r) (hgroup : ∀ a group, f a = .ok group → group.Pairwise s)
    (hgroups : ∀ a a' group group', r a a' → f a = .ok group → f a' = .ok group' →
      ∀ b ∈ group, ∀ b' ∈ group', s b b') :
    groups.flatten.Pairwise s := by
  have hall := mapM_eq_ok_iff.mp h
  clear h
  induction hall with
  | nil => exact .nil
  | @cons a group as groups hab htail ih =>
    obtain ⟨hfirst, has⟩ := List.pairwise_cons.mp has
    refine List.pairwise_append.mpr ⟨hgroup a group hab, ih has, fun b hb b' hb' => ?_⟩
    obtain ⟨a', ha', group', hgroup', hmem⟩ :=
      (mem_flatten_of_mapM (mapM_eq_ok_iff.mpr htail)).mp hb'
    exact hgroups a a' group group' (hfirst a' ha') hab hgroup' b hb b' hmem

theorem exists_of_mapM_eq_error {f : α → Except ε β} {as : List α} {e : ε}
    (h : as.mapM f = .error e) : ∃ a ∈ as, f a = .error e := by
  induction as with
  | nil => cases h
  | cons a as ih =>
    rw [List.mapM_cons, bind_eq_error_iff] at h
    obtain ha | ⟨b, -, h⟩ := h
    · exact ⟨a, List.mem_cons_self, ha⟩
    · obtain has | ⟨bs, -, hbs⟩ := bind_eq_error_iff.mp h
      · obtain ⟨a', ha', he⟩ := ih has
        exact ⟨a', List.mem_cons_of_mem _ ha', he⟩
      · cases hbs

theorem mapError_eq_ok_iff {ε' : Type} {f : ε → ε'} {x : Except ε α} {a : α} :
    x.mapError f = .ok a ↔ x = .ok a := by
  cases x <;> simp [Except.mapError]

theorem mapError_eq_error_iff {ε' : Type} {f : ε → ε'} {x : Except ε α} {e : ε'} :
    x.mapError f = .error e ↔ ∃ e', x = .error e' ∧ f e' = e := by
  cases x <;> simp [Except.mapError]

/-- A loop that fails has done some of its steps before the one that failed. -/
theorem foldlM_eq_error {f : β → α → Except ε β} {as : List α} {b : β} {e : ε}
    (h : as.foldlM f b = .error e) :
    ∃ before a after c,
      as = before ++ a :: after ∧ before.foldlM f b = .ok c ∧ f c a = .error e := by
  induction as generalizing b with
  | nil => cases h
  | cons a as ih =>
    rw [List.foldlM_cons] at h
    cases hstep : f b a with
    | error e' =>
      rw [hstep] at h
      obtain rfl := Except.error.inj h
      exact ⟨[], a, as, b, rfl, rfl, hstep⟩
    | ok c =>
      rw [hstep] at h
      obtain ⟨before, x, after, d, rfl, hbefore, hx⟩ := ih h
      refine ⟨a :: before, x, after, d, rfl, ?_, hx⟩
      rw [List.foldlM_cons, hstep]
      exact hbefore

end

end IntervalSuite
