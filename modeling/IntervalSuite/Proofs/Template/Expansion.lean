import IntervalSuite.Proofs.Template.Closed
import IntervalSuite.Proofs.Template.Segments
import Mathlib.Data.List.Basic
import Mathlib.Data.List.Infix

/-!
# Expanding a list of values

A list of values is put into a template one item at a time. Every item but the last leaves a
placeholder behind it, always without braces, and the next pass reads the text that has come about.
Each placeholder of the template receives the whole list if the passes find just the placeholders
that were left, and this depends on what stands next to them in the template: a placeholder that was
written in braces no longer ends where a name goes on, and an item can complete a placeholder that a
dollar sign in front of it begins.

* `places` is a template as one name sees it: characters, and places for the value of the name.
* `Apart` says that nothing next to a place can take part in a placeholder. It can be computed.
* `substituteList_eq_substitute_iff`: the templates in which every list of values arrives whole are
  those whose places are apart.
-/

namespace IntervalSuite.Template

open Text

/-! ## The placeholders of a name -/

/-- A placeholder of the name stands at the start of the text, without its dollar sign, and `rest`
is what follows it. -/
inductive Placeholder (name : List Char) : List Char → List Char → Prop where
  | bare {rest : List Char} (h : Stops isNamePart rest) : Placeholder name (name ++ rest) rest
  | braced (rest : List Char) : Placeholder name ('\x7b' :: (name ++ '\x7d' :: rest)) rest

/-- A name in front of the rest of a text that does not continue it. -/
theorem exists_leadingName_append {cs : List Char} (h : leadingName cs ≠ []) :
    ∃ rest, cs = leadingName cs ++ rest ∧ Stops isNamePart rest := by
  cases cs with
  | nil => exact absurd rfl h
  | cons c cs =>
    rw [leadingName] at h ⊢
    split at h
    · rename_i hc
      refine ⟨cs.dropWhile isNamePart, ?_, stops_dropWhile isNamePart cs⟩
      rw [if_pos hc, List.cons_append, List.takeWhile_append_dropWhile]
    · exact absurd rfl h

theorem placeholder_of_afterDollar? {cs name : List Char} {b : Bool}
    (h : afterDollar? cs = some (.hole name b)) :
    Placeholder name cs (cs.drop ((Segment.hole name b).text.length - 1)) := by
  unfold afterDollar? at h
  split at h
  · cases h
  · cases h
  · rename_i cs
    simp only [Option.ite_none_right_eq_some, Option.some.injEq, Segment.hole.injEq] at h
    obtain ⟨⟨hne, hclose⟩, rfl, rfl⟩ := h
    obtain ⟨rest, hrest, -⟩ := exists_leadingName_append hne
    generalize leadingName cs = name at *
    subst hrest
    rw [List.drop_left] at hclose
    obtain ⟨rest, rfl⟩ := List.head?_eq_some_iff.mp hclose
    simpa [Segment.text] using @Placeholder.braced name rest
  · simp only [Option.ite_none_right_eq_some, Option.some.injEq, Segment.hole.injEq] at h
    obtain ⟨hne, rfl, rfl⟩ := h
    obtain ⟨rest, hrest, hstops⟩ := exists_leadingName_append hne
    generalize leadingName cs = name at *
    subst hrest
    simpa [Segment.text] using @Placeholder.bare name _ hstops

theorem Placeholder.afterDollar? {name cs rest : List Char} (hname : IsName name)
    (h : Placeholder name cs rest) :
    ∃ b, Template.afterDollar? cs = some (.hole name b) ∧
      cs.drop ((Segment.hole name b).text.length - 1) = rest := by
  cases h with
  | bare hstops =>
    refine ⟨false, ?_, by simp [Segment.text]⟩
    simpa [Segment.text] using afterDollar?_hole false hname fun _ => hstops
  | braced =>
    refine ⟨true, ?_, by simp [Segment.text]⟩
    simpa [Segment.text] using @afterDollar?_hole name rest true hname (by simp)

/-- A placeholder that starts with the name itself ends with it. -/
theorem Placeholder.stops {name cs rest : List Char} (hname : IsName name)
    (h : Placeholder name (name ++ cs) rest) : Stops isNamePart cs := by
  generalize htext : name ++ cs = text at h
  cases h with
  | bare hstops => rwa [List.append_cancel_left htext]
  | braced =>
    obtain ⟨c, name, rfl, hc, -⟩ := hname.exists_cons
    obtain rfl := (List.cons.inj htext).1
    exact absurd hc (by decide)

theorem IsName.dollar_not_mem {name : List Char} (h : IsName name) : '$' ∉ name := by
  obtain ⟨c, cs, rfl, hc, hcs⟩ := h.exists_cons
  rw [List.mem_cons, not_or]
  refine ⟨?_, fun hd => absurd (hcs _ hd) (by decide)⟩
  rintro rfl
  exact absurd hc (by decide)

theorem IsName.exists_text {name : List Char} (h : IsName name) (b : Bool) :
    ∃ u, (Segment.hole name b).text = '$' :: u ∧ '$' ∉ u := by
  cases b with
  | false => exact ⟨name, rfl, h.dollar_not_mem⟩
  | true => exact ⟨'\x7b' :: (name ++ ['\x7d']), rfl, by simpa using h.dollar_not_mem⟩

/-! ## Places -/

/-- The template as the name sees it: the characters that stay, and `none` for each placeholder of
the name. -/
def places (name : List Char) : List Char → List (Option Char)
  | [] => []
  | c :: cs =>
    if c = '$' then
      match afterDollar? cs with
      | some (.hole n b) =>
        if n = name then none :: places name (cs.drop ((Segment.hole n b).text.length - 1))
        else some '$' :: places name cs
      | some .dollar => some '$' :: places name (cs.drop 1)
      | _ => some '$' :: places name cs
    else some c :: places name cs
termination_by cs => cs.length
decreasing_by all_goals grind

/-- What stands at a place, if `value` is the value of the name. -/
def put (value : List Char) : Option Char → List Char
  | none => value
  | some c => [c]

theorem places_cons {c : Char} (hc : c ≠ '$') (name cs : List Char) :
    places name (c :: cs) = some c :: places name cs := by
  rw [places, if_neg hc]

theorem places_placeholder {name cs rest : List Char} (hname : IsName name)
    (h : Placeholder name cs rest) : places name ('$' :: cs) = none :: places name rest := by
  obtain ⟨b, hafter, rfl⟩ := h.afterDollar? hname
  simp [places, hafter]

theorem places_dollar {name cs : List Char} (h : ∀ rest, ¬ Placeholder name cs rest)
    (hcs : cs.head? ≠ some '$') : places name ('$' :: cs) = some '$' :: places name cs := by
  rw [places, if_pos rfl]
  split
  · rename_i n b hafter
    rw [if_neg]
    rintro rfl
    exact h _ (placeholder_of_afterDollar? hafter)
  · rename_i hafter
    obtain ⟨⟨rest, hrest⟩, -, -⟩ := afterDollar?_spec hafter
    rw [← (List.cons.inj hrest).2] at hcs
    exact absurd rfl hcs
  · rfl

theorem places_append {u : List Char} (hu : '$' ∉ u) (name cs : List Char) :
    places name (u ++ cs) = u.map some ++ places name cs := by
  induction u with
  | nil => rfl
  | cons c u ih =>
    rw [List.mem_cons, not_or] at hu
    rw [List.cons_append, places_cons (Ne.symm hu.1), ih hu.2]
    rfl

theorem flatMap_put_map_some (u value : List Char) : (u.map some).flatMap (put value) = u := by
  induction u with
  | nil => rfl
  | cons c u ih => rw [List.map_cons, List.flatMap_cons, ih]; rfl

/-- A substitution puts the value into the places of the name. -/
theorem flatMap_fill_segments (name value cs : List Char) :
    (segments cs).flatMap (Segment.fill name value) = (places name cs).flatMap (put value) := by
  fun_induction segments cs with
  | case1 => simp [places]
  | case2 cs s hs ih =>
    obtain ⟨⟨rest, hrest⟩, hchar, hnames⟩ := afterDollar?_spec hs
    rw [List.flatMap_cons, ih, places, if_pos rfl, hs]
    cases s with
    | char c => exact absurd rfl (hchar c)
    | dollar => rfl
    | hole n b =>
      by_cases hn : n = name
      · simp [Segment.fill, hn, put]
      · -- The text of another placeholder is read as the characters it is.
        obtain ⟨u, htext, hu⟩ := (hnames n b rfl).exists_text b
        rw [htext, List.cons_append] at hrest
        obtain rfl : u ++ rest = cs := (List.cons.inj hrest).2
        simp [Segment.fill, hn, htext, places_append hu, flatMap_put_map_some, put]
  | case3 cs hs ih =>
    rw [List.flatMap_cons, ih, places, if_pos rfl, hs]
    rfl
  | case4 c cs hc ih =>
    rw [List.flatMap_cons, ih, places_cons hc]
    rfl

theorem toList_substitute_places (template name value : String) :
    (substitute template name value).toList =
      (places name.toList template.toList).flatMap (put value.toList) := by
  rw [substitute, String.toList_ofList, flatMap_fill_segments]

/-- Characters at the front of what is seen stand at the front of the template. -/
theorem exists_append_of_places {name u cs : List Char} {ps : List (Option Char)} (hu : '$' ∉ u)
    (h : places name cs = u.map some ++ ps) : ∃ rest, cs = u ++ rest ∧ places name rest = ps := by
  induction u generalizing cs with
  | nil => exact ⟨cs, rfl, h⟩
  | cons d u ih =>
    rw [List.mem_cons, not_or] at hu
    cases cs with
    | nil => simp [places] at h
    | cons c cs =>
      have hc : c ≠ '$' := by
        -- At a dollar sign there would be a place or a dollar sign.
        rintro rfl
        have hd := Ne.symm hu.1
        rw [places, if_pos rfl] at h
        split at h
        · split at h <;> simp_all
        · simp_all
        · simp_all
      rw [places_cons hc, List.map_cons, List.cons_append, List.cons.injEq, Option.some.injEq] at h
      obtain ⟨rest, rfl, hrest⟩ := ih hu.2 h.2
      exact ⟨rest, by rw [h.1]; rfl, hrest⟩

/-! ## One pass -/

/-- What a pass leaves: in each place the items so far, and the placeholder behind them. -/
def chained (name u : List Char) (ps : List (Option Char)) : List Char :=
  ps.flatMap (put (u ++ '$' :: name))

/-- The next pass finds just the placeholders that were left: no dollar sign of the template starts a
placeholder or a `$$`, and what follows a placeholder does not continue its name. -/
def Legible (name u : List Char) : List (Option Char) → Prop
  | [] => True
  | some c :: ps =>
    (c = '$' → (∀ rest, ¬ Placeholder name (chained name u ps) rest) ∧
      (chained name u ps).head? ≠ some '$') ∧ Legible name u ps
  | none :: ps => Stops isNamePart (chained name u ps) ∧ Legible name u ps

@[simp] theorem chained_some (name u : List Char) (c : Char) (ps : List (Option Char)) :
    chained name u (some c :: ps) = c :: chained name u ps := rfl

@[simp] theorem chained_none (name u : List Char) (ps : List (Option Char)) :
    chained name u (none :: ps) = u ++ '$' :: (name ++ chained name u ps) := by
  simp [chained, put]

/-- A pass over a legible text puts the next value behind the items so far. -/
theorem flatMap_put_places_chained {name u : List Char} (hname : IsName name) (hu : '$' ∉ u)
    {ps : List (Option Char)} (h : Legible name u ps) (value : List Char) :
    (places name (chained name u ps)).flatMap (put value) = ps.flatMap (put (u ++ value)) := by
  induction ps with
  | nil => simp [chained, places]
  | cons p ps ih =>
    cases p with
    | none =>
      have ih := ih h.2
      rw [chained_none, places_append hu, places_placeholder hname (.bare h.1),
        List.flatMap_append, flatMap_put_map_some, List.flatMap_cons, ih, List.flatMap_cons]
      simp [put]
    | some c =>
      have hplaces : places name (c :: chained name u ps) =
          some c :: places name (chained name u ps) := by
        by_cases hc : c = '$'
        · obtain ⟨hown, hhead⟩ := h.1 hc
          rw [hc, places_dollar hown hhead]
        · exact places_cons hc ..
      rw [chained_some, hplaces, List.flatMap_cons, ih h.2]
      rfl

/-- If each pass is legible, then every place receives the whole list. The template is the one that
is given, with `u` empty, or what the passes over the items in `u` have left of it. -/
theorem toList_substituteList_places {name delim : String} (hname : IsName name.toList)
    (hdelim : Closed delim) {ps : List (Option Char)}
    (h : ∀ u, '$' ∉ u → Legible name.toList u ps) {items : List String}
    (hitems : ∀ item ∈ items, Closed item) {u : List Char} (hu : '$' ∉ u) {template : String}
    (hpass : ∀ value, (substitute template name value).toList =
      ps.flatMap (put (u ++ value.toList))) :
    (substituteList template name items delim).toList =
      ps.flatMap (put (u ++ (delim.intercalate items).toList)) := by
  induction items generalizing u template with
  | nil => rw [substituteList, hpass, String.intercalate_nil]
  | cons item items ih =>
    obtain ⟨hitem, hitems⟩ := List.forall_mem_cons.mp hitems
    cases items with
    | nil => rw [substituteList, hpass, String.intercalate_singleton]
    | cons next items =>
      have hu' : '$' ∉ u ++ (item ++ delim).toList := by simpa using ⟨hu, hitem, hdelim⟩
      have hleft : (substitute template name (item ++ delim ++ "$" ++ name)).toList =
          chained name.toList (u ++ (item ++ delim).toList) ps := by
        rw [hpass]
        simp [chained]
      have hnext (value : String) :
          (substitute (substitute template name (item ++ delim ++ "$" ++ name)) name value).toList =
            ps.flatMap (put (u ++ (item ++ delim).toList ++ value.toList)) := by
        rw [toList_substitute_places, hleft, flatMap_put_places_chained hname hu' (h _ hu')]
      have hjoin : delim.intercalate (item :: next :: items) =
          item ++ delim ++ delim.intercalate (next :: items) :=
        String.intercalate_cons_of_ne_nil (by simp)
      rw [substituteList, ih hitems hu' hnext, hjoin]
      · simp only [String.toList_append, List.append_assoc]
      · simp

/-! ## Legible texts -/

/-- The text starts as the word does, and a place comes before the end of the word. -/
def Interrupts : List Char → List (Option Char) → Prop
  | _ :: _, none :: _ => True
  | d :: word, some c :: ps => c = d ∧ Interrupts word ps
  | _, _ => False

/-- What follows a place does not continue a name and is no other place. -/
def Free : List (Option Char) → Prop
  | [] => True
  | none :: _ => False
  | some c :: _ => isNamePart c = false

/-- Nothing next to a place can take part in a placeholder: a name does not go on behind a place, and
no place interrupts what a dollar sign would need behind it for a placeholder. -/
def Apart (name : List Char) : List (Option Char) → Prop
  | [] => True
  | some c :: ps =>
    (c = '$' → ¬ Interrupts name ps ∧ ¬ Interrupts ('\x7b' :: (name ++ ['\x7d'])) ps) ∧
      Apart name ps
  | none :: ps => Free ps ∧ Apart name ps

instance decidableInterrupts : (word : List Char) → DecidablePred (Interrupts word)
  | [], _ => .isFalse (by simp [Interrupts])
  | _ :: _, [] => .isFalse id
  | _ :: _, none :: _ => .isTrue trivial
  | _ :: word, some _ :: ps =>
    have := decidableInterrupts word ps
    inferInstanceAs (Decidable (_ ∧ _))

instance : DecidablePred Free
  | [] => .isTrue trivial
  | none :: _ => .isFalse id
  | some _ :: _ => inferInstanceAs (Decidable (_ = _))

instance decidableApart (name : List Char) : DecidablePred (Apart name)
  | [] => .isTrue trivial
  | some _ :: ps =>
    have := decidableApart name ps
    inferInstanceAs (Decidable ((_ → _) ∧ _))
  | none :: ps =>
    have := decidableApart name ps
    inferInstanceAs (Decidable (_ ∧ _))

/-- A word in front of a filled text is written there, or a place interrupts it. -/
theorem interrupts_or_of_isPrefix {word value : List Char} {ps : List (Option Char)}
    (h : word <+: ps.flatMap (put value)) :
    Interrupts word ps ∨ ∃ rest, ps = word.map some ++ rest := by
  induction word generalizing ps with
  | nil => exact .inr ⟨ps, rfl⟩
  | cons d word ih =>
    match ps with
    | [] => simp at h
    | none :: ps => exact .inl trivial
    | some c :: ps =>
      obtain ⟨rfl, hrest⟩ := List.cons_prefix_cons.mp h
      rcases ih hrest with hint | ⟨rest, rfl⟩
      · exact .inl ⟨rfl, hint⟩
      · exact .inr ⟨rest, rfl⟩

theorem Interrupts.exists_append {word : List Char} {ps : List (Option Char)}
    (h : Interrupts word ps) :
    ∃ u v rest, word = u ++ v ∧ ps = u.map some ++ none :: rest := by
  induction word generalizing ps with
  | nil => simp [Interrupts] at h
  | cons d word ih =>
    match ps with
    | [] => exact h.elim
    | none :: ps => exact ⟨[], d :: word, ps, rfl, rfl⟩
    | some c :: ps =>
      obtain ⟨rfl, h⟩ := h
      obtain ⟨u, v, rest, rfl, rfl⟩ := ih h
      exact ⟨c :: u, v, rest, rfl, rfl⟩

/-- An item that is the rest of an interrupted word completes it, with a dollar sign behind it. -/
theorem Interrupts.exists_completion {word : List Char} {ps : List (Option Char)}
    (h : Interrupts word ps) (hword : '$' ∉ word) (name : List Char) :
    ∃ u rest, '$' ∉ u ∧ chained name u ps = word ++ '$' :: rest := by
  obtain ⟨u, v, rest, rfl, rfl⟩ := h.exists_append
  rw [List.mem_append, not_or] at hword
  refine ⟨v, name ++ chained name v rest, hword.2, ?_⟩
  rw [chained, List.flatMap_append, flatMap_put_map_some]
  simp [chained, put]

theorem head?_chained_places {cs : List Char} (h : cs.head? ≠ some '$') (name u : List Char) :
    (chained name u (places name cs)).head? = cs.head? := by
  cases cs with
  | nil => simp [places, chained]
  | cons c cs =>
    have hc : c ≠ '$' := by simpa using h
    rw [places_cons hc]
    rfl

/-- If a run stops in front of what a pass has left, then it stops in front of the template. -/
theorem Stops.of_chained_places {name u cs : List Char}
    (h : Stops isNamePart (chained name u (places name cs))) : Stops isNamePart cs := by
  intro c hc
  by_cases hdollar : cs.head? = some '$'
  · obtain rfl : '$' = c := Option.some.inj (hdollar.symm.trans hc)
    decide
  · exact h c (by rwa [head?_chained_places hdollar])

/-- A pass completes no placeholder behind a dollar sign that does not start one, unless a place
interrupts it. -/
theorem not_placeholder_chained {name cs : List Char} (hname : IsName name)
    (hcs : ∀ rest, ¬ Placeholder name cs rest) (hbare : ¬ Interrupts name (places name cs))
    (hbraced : ¬ Interrupts ('\x7b' :: (name ++ ['\x7d'])) (places name cs)) (u : List Char) :
    ∀ rest, ¬ Placeholder name (chained name u (places name cs)) rest := by
  -- A word that is not interrupted is written in the template itself.
  have hwritten {word rest : List Char} (hdollar : '$' ∉ word)
      (hword : ¬ Interrupts word (places name cs))
      (h : chained name u (places name cs) = word ++ rest) :
      ∃ rest', cs = word ++ rest' ∧ rest = chained name u (places name rest') := by
    obtain hint | ⟨ps, hps⟩ := interrupts_or_of_isPrefix (h ▸ List.prefix_append word rest)
    · exact absurd hint hword
    · obtain ⟨rest', rfl, rfl⟩ := exists_append_of_places hdollar hps
      refine ⟨rest', rfl, ?_⟩
      rw [hps, chained, List.flatMap_append, flatMap_put_map_some] at h
      exact (List.append_cancel_left h).symm
  intro rest h
  generalize htext : chained name u (places name cs) = text at h
  cases h with
  | bare hstops =>
    obtain ⟨rest', rfl, rfl⟩ := hwritten hname.dollar_not_mem hbare htext
    exact hcs rest' (.bare (Stops.of_chained_places hstops))
  | braced =>
    have htext : chained name u (places name cs) = '\x7b' :: (name ++ ['\x7d']) ++ rest := by
      simpa using htext
    obtain ⟨rest', rfl, -⟩ := hwritten (by simpa using hname.dollar_not_mem) hbraced htext
    exact hcs rest' (by simpa using @Placeholder.braced name rest')

theorem Placeholder.isSuffix {name cs rest : List Char} (h : Placeholder name cs rest) :
    rest <:+ cs := by
  cases h with
  | bare => exact List.suffix_append ..
  | braced => exact ⟨'\x7b' :: (name ++ ['\x7d']), by simp⟩

/-- Induction over a template without `$$`: a placeholder of the name is one step, and so is each
other character. -/
theorem template_induction (name : List Char) {motive : List Char → Prop} (nil : motive [])
    (char : ∀ c cs, c ≠ '$' → motive cs → motive (c :: cs))
    (placeholder : ∀ cs rest, Placeholder name cs rest → motive rest → motive ('$' :: cs))
    (dollar : ∀ cs, (∀ rest, ¬ Placeholder name cs rest) → cs.head? ≠ some '$' → motive cs →
      motive ('$' :: cs)) (cs : List Char) (h : ¬ ['$', '$'] <:+: cs) : motive cs := by
  match cs with
  | [] => exact nil
  | c :: cs =>
    have hsuffix {rest : List Char} (hrest : rest <:+ cs) : ¬ ['$', '$'] <:+: rest := fun hinside =>
      h ((hinside.trans hrest.isInfix).trans (List.suffix_cons c cs).isInfix)
    have ih (rest : List Char) (hrest : rest <:+ cs) : motive rest :=
      template_induction name nil char placeholder dollar rest (hsuffix hrest)
    by_cases hc : c = '$'
    · subst hc
      by_cases hown : ∃ rest, Placeholder name cs rest
      · obtain ⟨rest, hrest⟩ := hown
        exact placeholder cs rest hrest (ih rest hrest.isSuffix)
      · refine dollar cs (not_exists.mp hown) (fun hhead => h ?_) (ih cs List.suffix_rfl)
        obtain ⟨rest, rfl⟩ := List.head?_eq_some_iff.mp hhead
        exact (List.prefix_append ['$', '$'] rest).isInfix
    · exact char c cs hc (ih cs List.suffix_rfl)
termination_by cs.length
decreasing_by
  have := hrest.length_le
  grind

/-- If the places are apart, then each pass is legible. -/
theorem legible_of_apart {name : List Char} (hname : IsName name) (u : List Char) {cs : List Char}
    (hcs : ¬ ['$', '$'] <:+: cs) (h : Apart name (places name cs)) :
    Legible name u (places name cs) := by
  revert h
  refine template_induction name (motive := fun cs => Apart name (places name cs) →
    Legible name u (places name cs)) ?nil ?char ?placeholder ?dollar cs hcs
  case nil => simp [places, Legible]
  case char =>
    intro c cs hc ih h
    rw [places_cons hc] at h ⊢
    exact ⟨fun hdollar => absurd hdollar hc, ih h.2⟩
  case placeholder =>
    intro cs rest hown ih h
    rw [places_placeholder hname hown] at h ⊢
    refine ⟨?_, ih h.2⟩
    generalize places name rest = ps at h
    match ps, h.1 with
    | [], _ => simp [Stops, chained]
    | some c :: ps, hc => exact Stops.cons hc _
  case dollar =>
    intro cs hown hhead ih h
    rw [places_dollar hown hhead] at h ⊢
    obtain ⟨hbare, hbraced⟩ := h.1 rfl
    refine ⟨fun _ => ⟨not_placeholder_chained hname hown hbare hbraced u, ?_⟩, ih h.2⟩
    rwa [head?_chained_places hhead]

/-- If a second pass delivers its value to each place, then the text it reads is legible. -/
theorem legible_of_flatMap_put {name : List Char} (hname : IsName name) {u : List Char}
    (hu : '$' ∉ u) {cs : List Char} (hcs : ¬ ['$', '$'] <:+: cs)
    (h : (places name (chained name u (places name cs))).flatMap (put ['a']) =
      (places name cs).flatMap (put (u ++ ['a']))) : Legible name u (places name cs) := by
  revert h
  refine template_induction name (motive := fun cs =>
    (places name (chained name u (places name cs))).flatMap (put ['a']) =
      (places name cs).flatMap (put (u ++ ['a'])) → Legible name u (places name cs))
    ?nil ?char ?placeholder ?dollar cs hcs
  case nil => simp [places, Legible]
  case char =>
    intro c cs hc ih h
    rw [places_cons hc] at h ⊢
    rw [chained_some, places_cons hc] at h
    exact ⟨fun hdollar => absurd hdollar hc, ih (List.cons.inj h).2⟩
  case placeholder =>
    intro cs rest hown ih h
    rw [places_placeholder hname hown] at h ⊢
    rw [chained_none, places_append hu, List.flatMap_append, flatMap_put_map_some,
      List.flatMap_cons, put, List.append_assoc, List.append_cancel_left_eq] at h
    by_cases hstops : Stops isNamePart (chained name u (places name rest))
    · rw [places_placeholder hname (.bare hstops)] at h
      exact ⟨hstops, ih (List.cons.inj h).2⟩
    · -- The placeholder that was left is not found, so its dollar sign is still there.
      have hdollar : (name ++ chained name u (places name rest)).head? ≠ some '$' := by
        obtain ⟨c, name, rfl, hc, -⟩ := hname.exists_cons
        rintro ⟨⟩
        exact absurd hc (by decide)
      rw [places_dollar (fun _ hown => hstops (hown.stops hname)) hdollar] at h
      exact absurd (List.cons.inj h).1 (by decide)
  case dollar =>
    intro cs hown hhead ih h
    rw [places_dollar hown hhead] at h ⊢
    rw [chained_some] at h
    have hhead : (chained name u (places name cs)).head? ≠ some '$' := by
      rwa [head?_chained_places hhead]
    by_cases hown : ∃ rest, Placeholder name (chained name u (places name cs)) rest
    · -- The dollar sign of the template has been taken for a placeholder.
      obtain ⟨rest, hrest⟩ := hown
      rw [places_placeholder hname hrest] at h
      exact absurd (List.cons.inj h).1 (by decide)
    · have hown := not_exists.mp hown
      rw [places_dollar hown hhead] at h
      exact ⟨fun _ => ⟨hown, hhead⟩, ih (List.cons.inj h).2⟩

/-- If each pass is legible, then the places are apart. -/
theorem apart_of_legible {name : List Char} (hname : IsName name) {ps : List (Option Char)}
    (h : ∀ u, '$' ∉ u → Legible name u ps) : Apart name ps := by
  induction ps with
  | nil => trivial
  | cons p ps ih =>
    cases p with
    | none =>
      refine ⟨?_, ih fun u hu => (h u hu).2⟩
      have hstops := (h ['_'] (by decide)).1
      match ps with
      | [] => trivial
      | none :: ps => exact absurd (hstops '_' rfl) (by decide)
      | some c :: ps => exact hstops c rfl
    | some c =>
      refine ⟨fun hc => ⟨fun hint => ?_, fun hint => ?_⟩, ih fun u hu => (h u hu).2⟩
      · obtain ⟨u, rest, hu, htext⟩ := hint.exists_completion hname.dollar_not_mem name
        refine ((h u hu).1 hc).1 ('$' :: rest) ?_
        rw [htext]
        exact .bare (Stops.cons (by decide) rest)
      · obtain ⟨u, rest, hu, htext⟩ :=
          hint.exists_completion (by simpa using hname.dollar_not_mem) name
        refine ((h u hu).1 hc).1 ('$' :: rest) ?_
        rw [htext]
        simpa using @Placeholder.braced name ('$' :: rest)

/-- A list of closed values arrives whole in each place of a template without `$$` if and only if
the places are apart. -/
theorem substituteList_eq_substitute_iff {template name : String} (hname : IsName name.toList)
    (htemplate : ¬ ['$', '$'] <:+: template.toList) :
    (∀ items delim, (∀ item ∈ items, Closed item) → Closed delim →
      substituteList template name items delim =
        substitute template name (delim.intercalate items)) ↔
    Apart name.toList (places name.toList template.toList) := by
  constructor
  · intro h
    refine apart_of_legible hname fun u hu => legible_of_flatMap_put hname hu htemplate ?_
    have hu : Closed (String.ofList u) := closed_ofList.mpr hu
    have hpass := congrArg String.toList
      (h [String.ofList u, "a"] "" (by simpa using ⟨hu, by decide⟩) (by decide))
    rw [substituteList, substituteList, toList_substitute_places, toList_substitute_places,
      toList_substitute_places] at hpass
    · simpa [chained] using hpass
    · simp
  · intro h items delim hitems hdelim
    have hlegible (u : List Char) (_ : '$' ∉ u) := legible_of_apart hname u htemplate h
    refine String.toList_inj.mp ?_
    rw [toList_substituteList_places hname hdelim hlegible hitems (u := []) (by simp)
      (toList_substitute_places template name), toList_substitute_places]
    rfl

/-- Placeholders of both forms with punctuation around them, and one of another name. -/
theorem substituteList_separated :
    IsName "A".toList ∧ ¬ ['$', '$'] <:+: "f($A, $\x7bA\x7d) + $AB".toList ∧
      Apart "A".toList (places "A".toList "f($A, $\x7bA\x7d) + $AB".toList) ∧
      substituteList "f($A, $\x7bA\x7d) + $AB" "A" ["x", "y", "z"] ", " =
        substitute "f($A, $\x7bA\x7d) + $AB" "A" (", ".intercalate ["x", "y", "z"]) := by
  have hname : IsName "A".toList := ⟨by decide, by decide⟩
  have htemplate : ¬ ['$', '$'] <:+: "f($A, $\x7bA\x7d) + $AB".toList := by decide
  have hapart : Apart "A".toList (places "A".toList "f($A, $\x7bA\x7d) + $AB".toList) := by
    decide +kernel
  exact ⟨hname, htemplate, hapart, (substituteList_eq_substitute_iff hname htemplate).mpr hapart
    ["x", "y", "z"] ", " (by decide) (by decide)⟩

/-- Two placeholders next to each other: a dollar sign of the first one is never read again. -/
theorem substituteList_adjacent :
    IsName "A".toList ∧ ¬ ['$', '$'] <:+: "$A$A".toList ∧
      ¬ Apart "A".toList (places "A".toList "$A$A".toList) ∧
      substituteList "$A$A" "A" ["x", "y", "z"] ", " = "x, $Ax, y, z" ∧
      substitute "$A$A" "A" (", ".intercalate ["x", "y", "z"]) = "x, y, zx, y, z" := by
  refine ⟨⟨by decide, by decide⟩, by decide, ?_, ?_, ?_⟩ <;> decide +kernel

end IntervalSuite.Template
