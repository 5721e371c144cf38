import IntervalSuite.Pattern.Parser

/-!
# Readers and closing parentheses

What does a reader of patterns make of a closing parenthesis behind its text? Either it never looks
behind it: the parenthesis is left over, with all that follows it. Or it passes over it, as the rest
of a comment, as the end of an open group or as an escaped character.

* `Guarded`: one of the two holds for every text, and what a reader leaves over is the end of its
  text.
* `Guarded.bind`, `Guarded.sign`, `Guarded.orElse`, `Guarded.ite`: readers that are put together
  from guarded ones.
* `guarded_gather`, `guarded_skip`, `guarded_next?`, `guarded_until?`: the readers of characters.
-/

namespace IntervalSuite.Pattern

variable {α β : Type} {f g : List Char → Option (α × List Char)}

/-- The result of a reader with `tail` behind what is left over. -/
def before (tail : List Char) (result : α × List Char) : α × List Char :=
  (result.1, result.2 ++ tail)

/-- The reader leaves over a parenthesis behind the text, with all that follows it. -/
def LeavesOver (f : List Char → Option (α × List Char)) (cs : List Char) : Prop :=
  ∀ tail, f (cs ++ ')' :: tail) = (f cs).map (before (')' :: tail))

/-- The reader passes over a parenthesis behind the text. A text that is read without the parenthesis
ends in a comment: it is read to its end, and the parenthesis makes no difference. -/
def PassesOver (f : List Char → Option (α × List Char)) (cs : List Char) : Prop :=
  ∀ a rest, f cs = some (a, rest) → rest = [] ∧ f (cs ++ [')']) = some (a, [])

/-- The reader leaves over the end of its text, and a parenthesis behind its text unless it passes
over it. -/
structure Guarded (f : List Char → Option (α × List Char)) : Prop where
  suffix : ∀ cs a rest, f cs = some (a, rest) → rest <:+ cs
  closing : ∀ cs, LeavesOver f cs ∨ PassesOver f cs

/-! ## Composition -/

theorem guarded_map (o : Option α) : Guarded fun cs => o.map (·, cs) := by
  refine ⟨?_, fun cs => .inl fun tail => ?_⟩
  · intro cs a rest h
    obtain ⟨b, -, hb⟩ := Option.map_eq_some_iff.mp h
    cases hb
    exact List.suffix_rfl
  · cases o <;> rfl

theorem guarded_some (a : α) : Guarded fun cs => some (a, cs) := guarded_map (some a)

theorem guarded_none : Guarded fun _ => (none : Option (α × List Char)) := guarded_map none

theorem guarded_if {p : Prop} [Decidable p] (hf : p → Guarded f) (hg : ¬ p → Guarded g) :
    Guarded fun cs => if p then f cs else g cs := by
  by_cases h : p
  · simpa only [if_pos h] using hf h
  · simpa only [if_neg h] using hg h

theorem Guarded.bind {k : α × List Char → Option (β × List Char)} (hf : Guarded f)
    (hk : ∀ a, Guarded fun cs => k (a, cs)) : Guarded fun cs => (f cs).bind k := by
  refine ⟨?_, fun cs => ?_⟩
  · intro cs b rest h
    obtain ⟨⟨a, mid⟩, ha, hb⟩ := Option.bind_eq_some_iff.mp h
    exact ((hk a).suffix mid b rest hb).trans (hf.suffix cs a mid ha)
  · obtain hleave | hpass := hf.closing cs
    · cases hcs : f cs with
      | none => exact .inl fun tail => by simp [hleave tail, hcs]
      | some r =>
        have htail : ∀ tail, f (cs ++ ')' :: tail) = some (r.1, r.2 ++ ')' :: tail) :=
          fun tail => by simp [hleave tail, hcs, before]
        obtain hleave | hpass := (hk r.1).closing r.2
        · exact .inl fun tail => by simpa [htail, hcs] using hleave tail
        · refine .inr fun b rest h => ?_
          simpa [htail] using hpass b rest (by simpa [hcs] using h)
    · refine .inr fun b rest h => ?_
      obtain ⟨⟨a, mid⟩, ha, hb⟩ := Option.bind_eq_some_iff.mp h
      obtain ⟨rfl, ha'⟩ := hpass a mid ha
      obtain rfl := List.suffix_nil.mp ((hk a).suffix [] b rest hb)
      exact ⟨rfl, by simpa [ha'] using hb⟩

theorem Guarded.map {k : α × List Char → β × List Char} (hf : Guarded f)
    (hk : ∀ a, ∃ b, ∀ cs, k (a, cs) = (b, cs)) : Guarded fun cs => (f cs).map k := by
  simp only [Option.map_eq_bind]
  refine hf.bind fun a => ?_
  obtain ⟨b, hb⟩ := hk a
  simpa only [Function.comp_apply, hb] using guarded_some b

/-- Readers with the same results, up to what is made of them, agree on parentheses. -/
theorem closing_congr {g : List Char → Option (β × List Char)} {cs ds : List Char} (k : α → β)
    (hf : LeavesOver f cs ∨ PassesOver f cs)
    (htail : ∀ tail, g (ds ++ ')' :: tail) = (f (cs ++ ')' :: tail)).map fun r => (k r.1, r.2))
    (hnil : g ds = (f cs).map fun r => (k r.1, r.2)) : LeavesOver g ds ∨ PassesOver g ds := by
  obtain hleave | hpass := hf
  · refine .inl fun tail => ?_
    rw [htail, hnil, hleave]
    cases f cs <;> rfl
  · refine .inr fun b rest h => ?_
    rw [hnil] at h
    obtain ⟨⟨a, mid⟩, ha, hk⟩ := Option.map_eq_some_iff.mp h
    cases hk
    obtain ⟨hmid, ha'⟩ := hpass a mid ha
    exact ⟨hmid, by simp [htail, ha']⟩

/-- A reader that needs a character. -/
theorem Guarded.cons (hnil : f [] = none) (hcons : ∀ c, Guarded fun cs => f (c :: cs)) :
    Guarded f := by
  refine ⟨?_, fun cs => ?_⟩
  · intro cs a rest h
    cases cs with
    | nil => simp [hnil] at h
    | cons c cs => exact ((hcons c).suffix cs a rest h).trans (List.suffix_cons c cs)
  · cases cs with
    | nil => exact .inr fun a rest h => by simp [hnil] at h
    | cons c cs => exact closing_congr id ((hcons c).closing cs) (fun tail => by simp) (by simp)

/-- A reader that does as another one does, unless its text starts with certain characters. -/
theorem Guarded.branch (hg : Guarded g) (hnil : f [] = g [])
    (hcons : ∀ c, (c ≠ ')' ∧ Guarded fun cs => f (c :: cs)) ∨ ∀ cs, f (c :: cs) = g (c :: cs)) :
    Guarded f := by
  have hclose : ∀ cs, f (')' :: cs) = g (')' :: cs) := (hcons ')').resolve_left fun h => h.1 rfl
  refine ⟨?_, fun cs => ?_⟩
  · intro cs a rest h
    cases cs with
    | nil => exact hg.suffix [] a rest (hnil ▸ h)
    | cons c cs =>
      obtain ⟨-, hc⟩ | hc := hcons c
      · exact (hc.suffix cs a rest h).trans (List.suffix_cons c cs)
      · exact hg.suffix (c :: cs) a rest (hc cs ▸ h)
  · cases cs with
    | nil => exact closing_congr id (hg.closing []) (fun tail => by simp [hclose]) (by simp [hnil])
    | cons c cs =>
      obtain ⟨-, hc⟩ | hc := hcons c
      · exact closing_congr id (hc.closing cs) (fun tail => by simp) (by simp)
      · exact closing_congr id (hg.closing (c :: cs)) (fun tail => by simp [hc]) (by simp [hc])

/-- A reader that does as another one does, unless its text starts with the sign `d`. -/
theorem Guarded.sign {d : Char} (hg : Guarded g) (hd : d ≠ ')')
    (hf : Guarded fun cs => f (d :: cs)) (hnil : f [] = g [])
    (hother : ∀ c cs, c ≠ d → f (c :: cs) = g (c :: cs)) : Guarded f := by
  refine hg.branch hnil fun c => ?_
  by_cases hc : c = d
  · subst hc
    exact .inl ⟨hd, hf⟩
  · exact .inr fun cs => hother c cs hc

/-- A reader that first tries another one which leaves every parenthesis over. -/
theorem Guarded.orElse {o : List Char → Option (β × List Char)}
    {k : β × List Char → Option (α × List Char)}
    (hsuffix : ∀ cs b rest, o cs = some (b, rest) → rest <:+ cs) (ho : ∀ cs, LeavesOver o cs)
    (hk : ∀ b, Guarded fun cs => k (b, cs)) (hg : Guarded g)
    (hsome : ∀ cs r, o cs = some r → f cs = k r) (hnone : ∀ cs, o cs = none → f cs = g cs) :
    Guarded f := by
  refine ⟨?_, fun cs => ?_⟩
  · intro cs a rest h
    cases hcs : o cs with
    | none => exact hg.suffix cs a rest (hnone cs hcs ▸ h)
    | some r =>
      rw [hsome cs r hcs] at h
      exact ((hk r.1).suffix r.2 a rest h).trans (hsuffix cs r.1 r.2 hcs)
  · cases hcs : o cs with
    | none =>
      refine closing_congr id (hg.closing cs) (fun tail => ?_) ?_
      · simpa using hnone (cs ++ ')' :: tail) (by simp [ho cs tail, hcs])
      · simpa using hnone cs hcs
    | some r =>
      refine closing_congr id ((hk r.1).closing r.2) (fun tail => ?_) ?_
      · simpa using hsome (cs ++ ')' :: tail) (r.1, r.2 ++ ')' :: tail)
          (by simp [ho cs tail, hcs, before])
      · simpa using hsome cs r hcs

theorem Guarded.alternative {o : List Char → Option (α × List Char)}
    (hsuffix : ∀ cs a rest, o cs = some (a, rest) → rest <:+ cs) (ho : ∀ cs, LeavesOver o cs)
    (hf : Guarded f) : Guarded fun cs => o cs <|> f cs :=
  .orElse hsuffix ho guarded_some hf (fun cs r h => by simp [h]) fun cs h => by simp [h]

/-- A reader that decides by what stands in front of the parenthesis. -/
theorem Guarded.ite {p : List Char → Bool} (hp : ∀ cs tail, p (cs ++ ')' :: tail) = p cs)
    (hf : Guarded f) (hg : Guarded g) : Guarded fun cs => if p cs then f cs else g cs := by
  refine ⟨fun cs a rest h => ?_, fun cs => ?_⟩
  · cases hcs : p cs with
    | true => exact hf.suffix cs a rest (by simpa [hcs] using h)
    | false => exact hg.suffix cs a rest (by simpa [hcs] using h)
  · cases hcs : p cs with
    | true => exact closing_congr id (hf.closing cs) (fun tail => by simp [hp, hcs]) (by simp [hcs])
    | false => exact closing_congr id (hg.closing cs) (fun tail => by simp [hp, hcs]) (by simp [hcs])

/-- The first character may be dropped in front of a reader. -/
theorem Guarded.drop (hf : Guarded f) (hnil : f [] = none) : Guarded fun cs => f (cs.drop 1) := by
  refine ⟨fun cs a rest h => (hf.suffix _ a rest h).trans (List.drop_suffix 1 cs), fun cs => ?_⟩
  cases cs with
  | nil => exact .inr fun a rest h => by simp [hnil] at h
  | cons c cs => exact closing_congr id (hf.closing cs) (fun tail => by simp) (by simp)

/-! ## Blanks -/

/-- A character is the first one that is left over, or its text is read as the text behind it. -/
theorem gather_cons (verbose : Bool) (p : Char → Bool) (comment : Bool) (c : Char) :
    (∀ cs, gather verbose p comment (c :: cs) = ([], c :: cs)) ∨
    ∃ inside : Bool, ∃ k : List Char → List Char, ∀ cs, gather verbose p comment (c :: cs) =
      (k (gather verbose p inside cs).1, (gather verbose p inside cs).2) := by
  simp only [gather]
  split
  · exact .inr ⟨_, id, fun cs => rfl⟩
  · split
    · exact .inr ⟨false, (c :: ·), fun cs => rfl⟩
    · split
      · exact .inr ⟨false, id, fun cs => rfl⟩
      · split
        · exact .inr ⟨true, id, fun cs => rfl⟩
        · exact .inl fun cs => rfl

theorem gather_suffix (verbose : Bool) (p : Char → Bool) (comment : Bool) (cs : List Char) :
    (gather verbose p comment cs).2 <:+ cs := by
  induction cs generalizing comment with
  | nil => exact List.suffix_rfl
  | cons c cs ih =>
    obtain hstop | ⟨inside, k, hgo⟩ := gather_cons verbose p comment c
    · simp [hstop]
    · rw [hgo]
      exact (ih inside).trans (List.suffix_cons c cs)

/-- A parenthesis is left over, or it is a part of a comment. -/
theorem gather_closing {p : Char → Bool} (hp : p ')' = false) (verbose comment : Bool)
    (cs : List Char) :
    (∀ tail, gather verbose p comment (cs ++ ')' :: tail) =
      before (')' :: tail) (gather verbose p comment cs)) ∨
    (gather verbose p comment cs).2 = [] ∧
      gather verbose p comment (cs ++ [')']) = gather verbose p comment cs := by
  induction cs generalizing comment with
  | nil =>
    cases comment with
    | true => exact .inr ⟨rfl, rfl⟩
    | false =>
      have hblank : Text.isBlank ')' = false := by decide
      exact .inl fun tail => by simp [gather, hp, hblank, before]
  | cons c cs ih =>
    obtain hstop | ⟨inside, k, hgo⟩ := gather_cons verbose p comment c
    · exact .inl fun tail => by simp [hstop, before]
    · obtain hleave | ⟨hnil, hclose⟩ := ih inside
      · exact .inl fun tail => by simp [hgo, hleave, before]
      · exact .inr ⟨by simpa [hgo] using hnil, by simp [hgo, hclose]⟩

theorem guarded_gather {verbose : Bool} {p : Char → Bool} (hp : p ')' = false) :
    Guarded fun cs => some (gather verbose p false cs) := by
  refine ⟨fun cs a rest h => ?_, fun cs => ?_⟩
  · simpa [Option.some.inj h] using gather_suffix verbose p false cs
  · obtain hleave | ⟨hnil, hclose⟩ := gather_closing hp verbose false cs
    · exact .inl fun tail => by simp [hleave]
    · refine .inr fun a rest h => ?_
      have heq : gather verbose p false cs = (a, rest) := Option.some.inj h
      rw [heq] at hnil hclose
      obtain rfl : rest = [] := hnil
      exact ⟨rfl, congrArg some hclose⟩

theorem guarded_skip (verbose : Bool) : Guarded fun cs => some ((), skip verbose cs) :=
  (guarded_gather (p := fun _ => false) rfl).map (k := fun r => ((), r.2)) fun _ =>
    ⟨(), fun _ => rfl⟩

/-- Blanks may be passed over in front of a reader. -/
theorem Guarded.skip (hf : Guarded f) (verbose : Bool) : Guarded fun cs => f (skip verbose cs) :=
  (guarded_skip verbose).bind (k := fun r => f r.2) fun _ => hf

theorem guarded_first? : Guarded first? :=
  .cons rfl guarded_some

theorem guarded_next? (verbose : Bool) : Guarded (next? verbose) :=
  guarded_first?.skip verbose

theorem until?_cons_suffix {p : Char → Bool} {c : Char} {cs rest : List Char}
    {a : List Char × Char} (h : until? p (c :: cs) = some (a, rest)) : rest <:+ cs := by
  induction cs generalizing c a with
  | nil =>
    simp only [until?] at h
    split at h <;> simp_all
  | cons d cs ih =>
    rw [until?] at h
    split at h
    · cases h
      exact List.suffix_rfl
    · obtain ⟨⟨b, mid⟩, hb, hk⟩ := Option.map_eq_some_iff.mp h
      cases hk
      exact (ih hb).trans (List.suffix_cons d cs)

theorem guarded_until? (p : Char → Bool) : Guarded (until? p) := by
  refine ⟨fun cs a rest h => ?_, fun cs => ?_⟩
  · cases cs with
    | nil => cases h
    | cons c cs => exact (until?_cons_suffix h).trans (List.suffix_cons c cs)
  · induction cs with
    | nil => exact .inr fun a rest h => by cases h
    | cons c cs ih =>
      cases hc : p c with
      | true => exact .inl fun tail => by simp [until?, hc, before]
      | false =>
        exact closing_congr (fun a => (c :: a.1, a.2)) ih (fun tail => by simp [until?, hc])
          (by simp [until?, hc])

theorem dropWhile_append_closing {p : Char → Bool} (hp : p ')' = false) (cs tail : List Char) :
    (cs ++ ')' :: tail).dropWhile p = cs.dropWhile p ++ ')' :: tail := by
  rw [List.dropWhile_append]
  split
  · simp_all
  · rfl

theorem takeWhile_append_closing {p : Char → Bool} (hp : p ')' = false) (cs tail : List Char) :
    (cs ++ ')' :: tail).takeWhile p = cs.takeWhile p := by
  rw [List.takeWhile_append]
  split
  · next h => simp [hp, (List.takeWhile_prefix p).eq_of_length h]
  · rfl

theorem guarded_dropWhile {p : Char → Bool} (hp : p ')' = false) :
    Guarded fun cs => some ((), cs.dropWhile p) := by
  refine ⟨fun cs a rest h => ?_, fun cs => .inl fun tail => ?_⟩
  · cases h
    exact List.dropWhile_suffix p
  · simp [dropWhile_append_closing hp, before]

end IntervalSuite.Pattern
