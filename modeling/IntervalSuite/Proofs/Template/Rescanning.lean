import IntervalSuite.Proofs.Template.Expansion
import IntervalSuite.Proofs.Template.Filling

/-!
# Values that are read again

A template with two names is filled in two passes, and the second pass also reads what the first one
has put in. A value is carried through the second pass if none of its dollar signs is taken there for
`$$` or for a placeholder of the second name. What follows the value counts as well: it can complete
a placeholder that the value begins.

* `Inert`: a text that a pass leaves as it is, given what follows. It can be computed.
* `Carries`: the value is inert in each of its places in the template.
* `substitute_substitute_iff`: the values that are carried, whatever the second pass puts in, are
  those which the template `Carries`.
-/

namespace IntervalSuite.Template

open Text

/-! ## Inert texts -/

/-- A dollar sign in front of the text starts neither `$$` nor a placeholder of the name. -/
def DollarStays (name cs : List Char) : Prop :=
  afterDollar? cs ≠ some .dollar ∧ ∀ b, afterDollar? cs ≠ some (.hole name b)

/-- A pass for the name leaves the text in front of `rest` as it is. -/
def Inert (name rest : List Char) : List Char → Prop
  | [] => True
  | c :: cs => (c = '$' → DollarStays name (cs ++ rest)) ∧ Inert name rest cs

instance (name cs : List Char) : Decidable (DollarStays name cs) :=
  inferInstanceAs (Decidable (_ ∧ _))

instance decidableInert (name rest : List Char) : DecidablePred (Inert name rest)
  | [] => .isTrue trivial
  | _ :: cs =>
    have := decidableInert name rest cs
    inferInstanceAs (Decidable ((_ → _) ∧ _))

theorem DollarStays.places {name cs : List Char} (h : DollarStays name cs) :
    places name ('$' :: cs) = some '$' :: places name cs := by
  rw [Template.places, if_pos rfl]
  split
  · rename_i n b hafter
    rw [if_neg]
    rintro rfl
    exact h.2 b hafter
  · exact absurd ‹_› h.1
  · rfl

theorem places_dollar_dollar (name cs : List Char) :
    places name ('$' :: '$' :: cs) = some '$' :: places name cs := by
  rw [places, if_pos rfl]
  rfl

theorem Inert.places_append {name rest v : List Char} (h : Inert name rest v) :
    places name (v ++ rest) = v.map some ++ places name rest := by
  induction v with
  | nil => rfl
  | cons c v ih =>
    have ih := ih h.2
    rw [List.cons_append, List.map_cons, List.cons_append, ← ih]
    by_cases hc : c = '$'
    · subst hc
      exact (h.1 rfl).places
    · exact places_cons hc ..

theorem exists_cons_of_afterDollar?_dollar {cs : List Char} (h : afterDollar? cs = some .dollar) :
    ∃ rest, cs = '$' :: rest := by
  obtain ⟨⟨rest, hrest⟩, -, -⟩ := afterDollar?_spec h
  exact ⟨rest, (List.cons.inj hrest).2.symm⟩

/-- What a placeholder takes away holds no dollar sign. -/
theorem exists_append_of_afterDollar?_hole {cs name : List Char} {b : Bool}
    (h : afterDollar? cs = some (.hole name b)) :
    ∃ u, cs = u ++ cs.drop ((Segment.hole name b).text.length - 1) ∧ '$' ∉ u := by
  obtain ⟨⟨rest, hrest⟩, -, hnames⟩ := afterDollar?_spec h
  obtain ⟨u, htext, hu⟩ := (hnames name b rfl).exists_text b
  rw [htext, List.cons_append] at hrest
  refine ⟨u, ?_, hu⟩
  rw [htext, List.length_cons, Nat.add_sub_cancel, ← (List.cons.inj hrest).2, List.drop_left]

/-- For each character in front of a text, a pass sees at most one thing more than in the text alone.
The text does not start with a dollar sign: with another one in front of it, its first placeholder
would be lost, and all characters of the name would be seen. -/
theorem length_places_append_le (name : List Char) {rest : List Char}
    (hrest : rest.head? ≠ some '$') (v : List Char) :
    (places name (v ++ rest)).length ≤ v.length + (places name rest).length := by
  match v with
  | [] => simp
  | c :: v =>
    have ih := length_places_append_le name hrest v
    rw [List.cons_append, List.length_cons]
    by_cases hc : c = '$'
    · subst hc
      rw [places, if_pos rfl]
      split
      · rename_i n b hafter
        split
        · obtain ⟨u, hu, hdollar⟩ := exists_append_of_afterDollar?_hole hafter
          generalize (v ++ rest).drop ((Segment.hole n b).text.length - 1) = after at hu ⊢
          rw [List.length_cons]
          -- The placeholder ends in the text that follows, or before it.
          obtain ⟨w, rfl, rfl⟩ | ⟨w, rfl, rfl⟩ := List.append_eq_append_iff.mp hu
          · have hdollar : '$' ∉ w := fun hmem => hdollar (List.mem_append_right v hmem)
            rw [places_append hdollar, List.length_append]
            omega
          · have ih := length_places_append_le name hrest w
            rw [List.length_append]
            omega
        · rw [List.length_cons]
          omega
      · rename_i hafter
        obtain ⟨after, hafter⟩ := exists_cons_of_afterDollar?_dollar hafter
        cases v with
        | nil => exact absurd (congrArg List.head? hafter) hrest
        | cons d v =>
          have ih := length_places_append_le name hrest v
          rw [List.cons_append, List.drop_one, List.tail_cons, List.length_cons, List.length_cons]
          omega
      · rw [List.length_cons]
        omega
    · rw [places_cons hc, List.length_cons]
      omega
termination_by v.length

/-- A text that arrives in front of `ps` is inert, and `ps` is what a pass sees of the rest. That `ps`
is long enough excludes that a dollar sign is lost and another one seen in its place. -/
theorem inert_of_places {name rest v : List Char} {ps : List (Option Char)}
    (hrest : rest.head? ≠ some '$') (hps : (places name rest).length ≤ ps.length)
    (h : places name (v ++ rest) = v.map some ++ ps) : Inert name rest v ∧ places name rest = ps := by
  induction v with
  | nil => exact ⟨trivial, h⟩
  | cons c v ih =>
    rw [List.cons_append, List.map_cons, List.cons_append] at h
    by_cases hc : c = '$'
    · subst hc
      have hstays : DollarStays name (v ++ rest) := by
        refine ⟨fun hafter => ?_, fun b hafter => ?_⟩
        · obtain ⟨after, hv⟩ := exists_cons_of_afterDollar?_dollar hafter
          cases v with
          | nil => exact absurd (congrArg List.head? hv) hrest
          | cons d v =>
            -- One of the two dollar signs is lost, and nothing can make up for it.
            obtain rfl : d = '$' := (List.cons.inj hv).1
            have hlength := congrArg List.length h
            have hle := length_places_append_le name hrest v
            rw [List.cons_append, places_dollar_dollar, List.length_cons, List.length_cons,
              List.length_append, List.length_map, List.length_cons] at hlength
            omega
        · simp [places, hafter] at h
      rw [hstays.places] at h
      obtain ⟨hinert, hplaces⟩ := ih (List.cons.inj h).2
      exact ⟨⟨fun _ => hstays, hinert⟩, hplaces⟩
    · rw [places_cons hc] at h
      obtain ⟨hinert, hplaces⟩ := ih (List.cons.inj h).2
      exact ⟨⟨fun hdollar => absurd hdollar hc, hinert⟩, hplaces⟩

/-! ## A template with a value in it -/

/-- The value is inert in each of its places, in front of what follows there. -/
def Carries (first second v : List Char) : List Segment → Prop
  | [] => True
  | .char _ :: ss | .dollar :: ss => Carries first second v ss
  | .hole n _ :: ss =>
    (n = first → Inert second (ss.flatMap (Segment.fill first v)) v) ∧ Carries first second v ss

instance decidableCarries (first second v : List Char) : DecidablePred (Carries first second v)
  | [] => .isTrue trivial
  | .char _ :: ss | .dollar :: ss => decidableCarries first second v ss
  | .hole _ _ :: ss =>
    have := decidableCarries first second v ss
    inferInstanceAs (Decidable ((_ → _) ∧ _))

/-- The segment as a pass for the second name sees it, if the value of the first name is carried. -/
def Segment.seen (first second v : List Char) : Segment → List (Option Char)
  | char c => [some c]
  | dollar => [some '$']
  | hole n b =>
    if n = first then v.map some else if n = second then [none] else (hole n b).text.map some

section

variable {first second v : List Char}

theorem Clear.stops_fill {ss : List Segment} (h : Clear ss) (first v : List Char) :
    Stops isNamePart (ss.flatMap (Segment.fill first v)) ∧
      (ss.flatMap (Segment.fill first v)).head? ≠ some '$' := by
  cases ss with
  | nil => simp [Stops]
  | cons s ss =>
    cases s with
    | char c => exact ⟨Stops.cons h.2 _, by simpa [Segment.fill] using h.1⟩
    | dollar | hole => exact h.elim

/-- A segment that is no place of the value is seen as it should be. -/
theorem places_fill_append {s : Segment} {ss : List Segment} (h : Readable (s :: ss))
    (hs : ∀ b, s ≠ .hole first b) :
    places second (s.fill first v ++ ss.flatMap (Segment.fill first v)) =
      s.seen first second v ++ places second (ss.flatMap (Segment.fill first v)) := by
  cases s with
  | char c => exact places_cons h.spaced.1 ..
  | dollar => exact h.spaced.elim
  | hole n b =>
    have hn : n ≠ first := by
      rintro rfl
      exact hs b rfl
    have hname : IsName n := h.names n b (by simp)
    obtain ⟨u, htext, hu⟩ := hname.exists_text b
    have hafter := afterDollar?_hole b hname fun _ => (h.spaced.1.stops_fill first v).1
    rw [htext, List.drop_one, List.tail_cons] at hafter
    rw [Segment.fill, if_neg hn, Segment.seen, if_neg hn, htext, List.cons_append, places,
      if_pos rfl, hafter]
    by_cases hsecond : n = second
    · simp [hsecond, hsecond ▸ htext]
    · simp [hsecond, places_append hu]

theorem Carries.places {ss : List Segment} (h : Readable ss) (hv : Carries first second v ss) :
    places second (ss.flatMap (Segment.fill first v)) =
      ss.flatMap (Segment.seen first second v) := by
  induction ss with
  | nil => simp [Template.places]
  | cons s ss ih =>
    rw [List.flatMap_cons, List.flatMap_cons]
    cases s with
    | char c => rw [places_fill_append h (by simp), ih h.tail hv]
    | dollar => exact h.spaced.elim
    | hole n b =>
      have ih := ih h.tail hv.2
      by_cases hn : n = first
      · rw [Segment.fill, if_pos hn, Segment.seen, if_pos hn, (hv.1 hn).places_append, ih]
      · rw [places_fill_append h (by simpa using hn), ih]

theorem length_places_fill_le {ss : List Segment} (h : Readable ss) :
    (places second (ss.flatMap (Segment.fill first v))).length ≤
      (ss.flatMap (Segment.seen first second v)).length := by
  induction ss with
  | nil => simp [places]
  | cons s ss ih =>
    have ih := ih h.tail
    rw [List.flatMap_cons, List.flatMap_cons, List.length_append]
    by_cases hs : ∃ b, s = .hole first b
    · obtain ⟨b, rfl⟩ := hs
      have hle := length_places_append_le second (h.spaced.1.stops_fill first v).2 v
      rw [Segment.fill, if_pos rfl, Segment.seen, if_pos rfl, List.length_map]
      omega
    · rw [places_fill_append h (not_exists.mp hs), List.length_append]
      omega

theorem carries_of_places {ss : List Segment} (h : Readable ss)
    (hplaces : places second (ss.flatMap (Segment.fill first v)) =
      ss.flatMap (Segment.seen first second v)) : Carries first second v ss := by
  induction ss with
  | nil => trivial
  | cons s ss ih =>
    have ih := ih h.tail
    rw [List.flatMap_cons, List.flatMap_cons] at hplaces
    cases s with
    | char c =>
      rw [places_fill_append h (by simp)] at hplaces
      exact ih (List.append_cancel_left hplaces)
    | dollar => exact h.spaced.elim
    | hole n b =>
      by_cases hn : n = first
      · rw [Segment.fill, if_pos hn, Segment.seen, if_pos hn] at hplaces
        obtain ⟨hinert, hplaces⟩ :=
          inert_of_places (h.spaced.1.stops_fill first v).2 (length_places_fill_le h.tail) hplaces
        exact ⟨fun _ => hinert, ih hplaces⟩
      · rw [places_fill_append h (by simpa using hn)] at hplaces
        exact ⟨fun heq => absurd heq hn, ih (List.append_cancel_left hplaces)⟩

end

/-! ## Two passes -/

theorem flatMap_put_singleton (c : Char) (ps : List (Option Char)) :
    ps.flatMap (put [c]) = ps.map fun p => p.getD c := by
  induction ps with
  | nil => rfl
  | cons p ps ih =>
    rw [List.flatMap_cons, ih]
    cases p <;> rfl

/-- Values of one character tell places from characters. -/
theorem eq_of_flatMap_put {ps qs : List (Option Char)}
    (h : ∀ c, ps.flatMap (put [c]) = qs.flatMap (put [c])) : ps = qs := by
  simp only [flatMap_put_singleton] at h
  induction ps generalizing qs with
  | nil =>
    cases qs with
    | nil => rfl
    | cons q qs => simpa using h 'a'
  | cons p ps ih =>
    cases qs with
    | nil => simpa using h 'a'
    | cons q qs =>
      simp only [List.map_cons, List.cons.injEq] at h
      have hp : p = q := by
        have ha := (h 'a').1
        have hb := (h 'b').1
        cases p <;> cases q <;> grind
      rw [hp, ih fun c => (h c).2]

theorem flatMap_put_seen (first second v w : String) (s : Segment) :
    (s.seen first.toList second.toList v.toList).flatMap (put w.toList) =
      s.fillAll [(first, v), (second, w)] := by
  cases s with
  | char | dollar => rfl
  | hole n b =>
    have hne {name : String} (hn : n ≠ name.toList) : String.ofList n ≠ name := by
      rintro rfl
      exact hn String.toList_ofList.symm
    rw [Segment.seen, Segment.fillAll]
    by_cases hfirst : n = first.toList
    · rw [if_pos hfirst, flatMap_put_map_some, hfirst, String.ofList_toList, List.lookup_cons_self]
    rw [if_neg hfirst, lookup_cons_of_ne (hne hfirst)]
    by_cases hsecond : n = second.toList
    · rw [if_pos hsecond, hsecond, String.ofList_toList, List.lookup_cons_self]
      simp [put]
    · rw [if_neg hsecond, flatMap_put_map_some, lookup_cons_of_ne (hne hsecond)]
      rfl

/-- **Values that are carried.** Two passes fill a well-separated template at once, whatever the
second one puts in, if and only if the first value is inert in each of its places. -/
theorem substitute_substitute_iff {t : String} (ht : WellSeparated t) (first second v : String) :
    (∀ w, substitute (substitute t first v) second w = fillAll t [(first, v), (second, w)]) ↔
      Carries first.toList second.toList v.toList (segments t.toList) := by
  have hpass (w : String) : (substitute (substitute t first v) second w).toList =
      (places second.toList ((segments t.toList).flatMap
        (Segment.fill first.toList v.toList))).flatMap (put w.toList) := by
    rw [toList_substitute_places, substitute, String.toList_ofList]
  have hfill (w : String) : (fillAll t [(first, v), (second, w)]).toList =
      ((segments t.toList).flatMap
        (Segment.seen first.toList second.toList v.toList)).flatMap (put w.toList) := by
    rw [fillAll, String.toList_ofList, List.flatMap_assoc]
    exact List.flatMap_congr fun s _ => (flatMap_put_seen first second v w s).symm
  constructor
  · intro h
    refine carries_of_places ht.readable (eq_of_flatMap_put fun c => ?_)
    have hc := congrArg String.toList (h (String.ofList [c]))
    rwa [hpass, hfill, String.toList_ofList] at hc
  · intro h w
    rw [← String.toList_inj, hpass, hfill, h.places ht.readable]

example : ¬ Carries "A".toList "B".toList "x$".toList (segments "$A\x7bB\x7d".toList) := by
  decide +kernel

end IntervalSuite.Template
