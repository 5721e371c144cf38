import IntervalSuite.Proofs.Template.Closed
import IntervalSuite.Proofs.Template.Segments
import IntervalSuite.Proofs.Text.Search
import Mathlib.Data.List.Basic

/-!
# Filling a template

`fillAll` fills all placeholders of a template at once. A substitution fills those of one name, so a
template is filled by one substitution after the other, each of which reads the text that the ones
before it have left. If the template is divided and nothing that is put into it holds a dollar sign
(`Closed`), then this comes to the same. A list of values needs more, as each of its items but the
last leaves a placeholder without braces: for lists the template is well separated.

* `substituteAll_eq_fillAll`: substitutions one after the other fill the template at once.
* `substituteList_eq`: a list of values comes to its items with the delimiter between them.
* `substituteWith_eq_ok`: a value that is not looked up is not needed.
* `ClosedBy.faithful`: what is put together from closed values is closed, too.
-/

namespace IntervalSuite.Template

open Text

/-! ## Filling at once -/

/-- The segment with the values of all its names; a name without a value stays a placeholder. -/
def Segment.fillAll (values : List (String × String)) : Segment → List Char
  | char c => [c]
  | dollar => ['$']
  | hole n braced => match values.lookup (String.ofList n) with
    | some value => value.toList
    | none => (hole n braced).text

/-- The template with all its placeholders filled at once. -/
def fillAll (template : String) (values : List (String × String)) : String :=
  String.ofList ((segments template.toList).flatMap (Segment.fillAll values))

/-- The name of a placeholder. -/
def Segment.name? : Segment → Option String
  | hole n _ => some (String.ofList n)
  | _ => none

/-- The names of the placeholders of a template. -/
def placeholders (template : String) : List String :=
  (segments template.toList).filterMap Segment.name?

theorem mem_placeholders {t name : String} :
    name ∈ placeholders t ↔ ∃ b, .hole name.toList b ∈ segments t.toList := by
  rw [placeholders, List.mem_filterMap]
  constructor
  · rintro ⟨s, hs, hname⟩
    cases s with
    | hole n b =>
      obtain rfl : String.ofList n = name := by simpa [Segment.name?] using hname
      exact ⟨b, by simpa using hs⟩
    | char | dollar => cases hname
  · rintro ⟨b, hb⟩
    exact ⟨_, hb, by simp [Segment.name?]⟩

/-- Only the values of the names that the template mentions matter. -/
theorem fillAll_congr {t : String} {vs ws : List (String × String)}
    (h : ∀ name ∈ placeholders t, vs.lookup name = ws.lookup name) :
    fillAll t vs = fillAll t ws := by
  unfold fillAll
  congr 1
  refine List.flatMap_congr fun s hs => ?_
  cases s with
  | char | dollar => rfl
  | hole n b =>
    have hmem : String.ofList n ∈ placeholders t := mem_placeholders.mpr ⟨b, by simpa using hs⟩
    rw [Segment.fillAll, Segment.fillAll, h _ hmem]

/-! ## One substitution -/

/-- The segment with other segments in the place of a placeholder. -/
def Segment.graft (name : List Char) (vs : List Segment) : Segment → List Segment
  | hole n b => if n = name then vs else [hole n b]
  | s => [s]

theorem Clear.graft {name : List Char} {vs ss : List Segment} (h : Clear ss) :
    Clear (ss.flatMap (Segment.graft name vs)) := by
  cases ss with
  | nil => trivial
  | cons s ss =>
    cases s with
    | char c => exact h
    | dollar | hole => exact h.elim

/-- The segments can stand in the place of a placeholder. -/
def Insertable (vs : List Segment) : Prop :=
  ∀ ss, Readable ss → Clear ss → Readable (vs ++ ss)

theorem readable_cons_char {c : Char} {ss : List Segment} (hc : c ≠ '$') (h : Readable ss) :
    Readable (.char c :: ss) :=
  ⟨⟨hc, h.spaced⟩, fun n b hmem => h.names n b (by simpa using hmem)⟩

theorem readable_cons_hole {n : List Char} (b : Bool) {ss : List Segment} (hn : IsName n)
    (hclear : Clear ss) (h : Readable ss) : Readable (.hole n b :: ss) := by
  refine ⟨⟨hclear, h.spaced⟩, fun m b' hmem => ?_⟩
  rcases List.mem_cons.mp hmem with heq | hmem
  · cases heq
    exact hn
  · exact h.names m b' hmem

theorem parted_chars {v : List Char} {ss : List Segment} (hv : '$' ∉ v) (h : Parted ss) :
    Parted (v.map .char ++ ss) := by
  induction v with
  | nil => exact h
  | cons c v ih =>
    rw [List.mem_cons, not_or] at hv
    exact ⟨Ne.symm hv.1, ih hv.2⟩

theorem readable_chars {v : List Char} {ss : List Segment} (hv : '$' ∉ v) (h : Readable ss) :
    Readable (v.map .char ++ ss) := by
  induction v with
  | nil => exact h
  | cons c v ih =>
    rw [List.mem_cons, not_or] at hv
    exact readable_cons_char (Ne.symm hv.1) (ih hv.2)

theorem Readable.graft {name : List Char} {vs ss : List Segment} (h : Readable ss)
    (hv : Insertable vs) : Readable (ss.flatMap (Segment.graft name vs)) := by
  induction ss with
  | nil => exact ⟨trivial, by simp⟩
  | cons s ss ih =>
    have ih := ih h.tail
    cases s with
    | dollar => exact h.spaced.elim
    | char c => exact readable_cons_char h.spaced.1 ih
    | hole n b =>
      have hclear : Clear (ss.flatMap (Segment.graft name vs)) := h.spaced.1.graft
      rw [List.flatMap_cons, Segment.graft]
      split
      · exact hv _ ih hclear
      · exact readable_cons_hole b (h.names n b (by simp)) hclear ih

theorem insertable_chars {v : List Char} (hv : '$' ∉ v) : Insertable (v.map .char) :=
  fun _ h _ => readable_chars hv h

/-- Behind the item of a list the placeholder stands again. -/
theorem insertable_chars_hole {v n : List Char} (hv : '$' ∉ v) (hn : IsName n) :
    Insertable (v.map .char ++ [.hole n false]) := by
  intro ss h hclear
  rw [List.append_assoc]
  exact readable_chars hv (readable_cons_hole false hn hclear h)

theorem flatMap_chars {f : Segment → List Char} (hf : ∀ c, f (.char c) = [c]) (v : List Char) :
    (v.map Segment.char).flatMap f = v := by
  induction v with
  | nil => rfl
  | cons c v ih => rw [List.map_cons, List.flatMap_cons, ih, hf, List.singleton_append]

/-- A substitution puts the segments of the value in the place of the placeholders. -/
theorem toList_substitute {t name v : String} {vs : List Segment} (ht : Divided t)
    (hv : vs.flatMap Segment.text = v.toList) :
    (substitute t name v).toList =
      ((segments t.toList).flatMap (Segment.graft name.toList vs)).flatMap Segment.text := by
  rw [substitute, String.toList_ofList, List.flatMap_assoc]
  refine List.flatMap_congr fun s hs => ?_
  cases s with
  | char c => rfl
  | dollar => exact absurd hs ht.ne_dollar
  | hole n b =>
    rw [Segment.fill, Segment.graft]
    split
    · exact hv.symm
    · simp

theorem segments_substitute {t name v : String} {vs : List Segment} (ht : WellSeparated t)
    (hv : vs.flatMap Segment.text = v.toList) (hvs : Insertable vs) :
    segments (substitute t name v).toList =
      (segments t.toList).flatMap (Segment.graft name.toList vs) := by
  have hread : Readable ((segments t.toList).flatMap (Segment.graft name.toList vs)) :=
    ht.readable.graft hvs
  rw [toList_substitute ht.divided hv, segments_flatMap_text hread.spaced.parted hread.names]

theorem wellSeparated_substitute {t name v : String} {vs : List Segment} (ht : WellSeparated t)
    (hv : vs.flatMap Segment.text = v.toList) (hvs : Insertable vs) :
    WellSeparated (substitute t name v) := by
  unfold WellSeparated
  rw [segments_substitute ht hv hvs]
  exact (ht.readable.graft hvs).spaced

/-- A value without a place is not needed. -/
theorem substitute_congr {t name : String} (h : name ∉ placeholders t) (v w : String) :
    substitute t name v = substitute t name w := by
  unfold substitute
  congr 1
  refine List.flatMap_congr fun s hs => ?_
  cases s with
  | char | dollar => rfl
  | hole n b =>
    have hne : n ≠ name.toList := by
      rintro rfl
      exact h (mem_placeholders.mpr ⟨b, hs⟩)
    rw [Segment.fill, Segment.fill, if_neg hne, if_neg hne]

/-- A name that a divided template does not mention leaves it as it is. -/
theorem substitute_eq_self {t name : String} (ht : Divided t) (h : name ∉ placeholders t)
    (v : String) : substitute t name v = t := by
  have hsegs : (segments t.toList).flatMap (Segment.graft name.toList []) = segments t.toList := by
    rw [List.flatMap_congr (g := fun s => [s]) fun s hs => ?_, List.flatMap_singleton']
    cases s with
    | char | dollar => rfl
    | hole n b =>
      rw [Segment.graft, if_neg]
      rintro rfl
      exact h (mem_placeholders.mpr ⟨b, hs⟩)
  have htext : (substitute t name "").toList =
      ((segments t.toList).flatMap (Segment.graft name.toList [])).flatMap Segment.text :=
    toList_substitute ht rfl
  rw [substitute_congr h v "", ← String.toList_inj, htext, hsegs, flatMap_text_segments]

/-- A placeholder of the segments with a closed text put in was there before, with another name. -/
theorem mem_graft_chars {name v n : List Char} {b : Bool} {ss : List Segment}
    (h : .hole n b ∈ ss.flatMap (Segment.graft name (v.map .char))) :
    .hole n b ∈ ss ∧ n ≠ name := by
  obtain ⟨s, hs, h⟩ := List.mem_flatMap.mp h
  cases s with
  | char c => simp [Segment.graft] at h
  | dollar => simp [Segment.graft] at h
  | hole m b' =>
    rw [Segment.graft] at h
    split at h
    · simp at h
    · rename_i hne
      obtain ⟨rfl, rfl⟩ : n = m ∧ b = b' := by simpa using h
      exact ⟨hs, hne⟩

theorem Parted.graft_chars {name v : List Char} {ss : List Segment} (h : Parted ss) (hv : '$' ∉ v) :
    Parted (ss.flatMap (Segment.graft name (v.map .char))) := by
  induction ss with
  | nil => trivial
  | cons s ss ih =>
    have ih := ih h.tail
    rw [List.flatMap_cons]
    cases s with
    | dollar => exact h.elim
    | char c => exact ⟨h.1, ih⟩
    | hole n b =>
      rw [Segment.graft]
      split
      · exact parted_chars hv ih
      · exact ⟨fun hb => (h.1 hb).graft, ih⟩

/-- A closed value is read as its characters. -/
theorem segments_substitute_closed {t name v : String} (ht : Divided t) (hv : Closed v) :
    segments (substitute t name v).toList =
      (segments t.toList).flatMap (Segment.graft name.toList (v.toList.map .char)) := by
  rw [toList_substitute ht (flatMap_chars (fun _ => rfl) v.toList)]
  refine segments_flatMap_text (ht.graft_chars hv) fun n b hmem => ?_
  exact isName_of_mem_segments (mem_graft_chars hmem).1

theorem divided_substitute {t name v : String} (ht : Divided t) (hv : Closed v) :
    Divided (substitute t name v) := by
  unfold Divided
  rw [segments_substitute_closed ht hv]
  exact ht.graft_chars hv

/-- A placeholder that is left after a substitution was there before, with another name. -/
theorem mem_placeholders_substitute {t name v m : String} (ht : Divided t) (hv : Closed v)
    (hm : m ∈ placeholders (substitute t name v)) : m ∈ placeholders t ∧ m ≠ name := by
  obtain ⟨b, hb⟩ := mem_placeholders.mp hm
  rw [segments_substitute_closed ht hv] at hb
  obtain ⟨hmem, hne⟩ := mem_graft_chars hb
  exact ⟨mem_placeholders.mpr ⟨b, hmem⟩, fun h => hne (by rw [h])⟩

/-! ## Substitutions one after the other -/

/-- The template after one substitution for each of the values. -/
def substituteAll (template : String) (values : List (String × String)) : String :=
  values.foldl (fun text (name, value) => substitute text name value) template

theorem substituteAll_append (t : String) (vs ws : List (String × String)) :
    substituteAll t (vs ++ ws) = substituteAll (substituteAll t vs) ws :=
  List.foldl_append

/-- What is put into a placeholder of the template holds no dollar sign. -/
def ClosedValues (template : String) (values : List (String × String)) : Prop :=
  ∀ name ∈ placeholders template, ∀ value ∈ values.lookup name, Closed value

theorem lookup_cons_of_ne {m name : String} (h : m ≠ name) (value : String)
    (values : List (String × String)) :
    ((name, value) :: values).lookup m = values.lookup m := by
  rw [List.lookup_cons, beq_false_of_ne h]

section

variable {t name value : String} {values : List (String × String)}

theorem ClosedValues.head (h : ClosedValues t ((name, value) :: values))
    (hmem : name ∈ placeholders t) : Closed value :=
  h name hmem value (by simp)

theorem wellSeparated_substitute_head (ht : WellSeparated t)
    (h : ClosedValues t ((name, value) :: values)) : WellSeparated (substitute t name value) := by
  by_cases hmem : name ∈ placeholders t
  · exact wellSeparated_substitute ht (flatMap_chars (fun _ => rfl) _)
      (insertable_chars (h.head hmem))
  · rwa [substitute_eq_self ht.divided hmem]

theorem divided_substitute_head (ht : Divided t) (h : ClosedValues t ((name, value) :: values)) :
    Divided (substitute t name value) := by
  by_cases hmem : name ∈ placeholders t
  · exact divided_substitute ht (h.head hmem)
  · rwa [substitute_eq_self ht hmem]

/-- After the first substitution the other values go into the placeholders of other names. -/
theorem placeholders_substitute_head (ht : Divided t)
    (h : ClosedValues t ((name, value) :: values)) {m : String}
    (hm : m ∈ placeholders (substitute t name value)) : m ∈ placeholders t ∧ m ≠ name := by
  by_cases hmem : name ∈ placeholders t
  · exact mem_placeholders_substitute ht (h.head hmem) hm
  · rw [substitute_eq_self ht hmem] at hm
    exact ⟨hm, fun heq => hmem (heq ▸ hm)⟩

theorem ClosedValues.tail (ht : Divided t) (h : ClosedValues t ((name, value) :: values)) :
    ClosedValues (substitute t name value) values := by
  intro m hm v hv
  obtain ⟨hmem, hne⟩ := placeholders_substitute_head ht h hm
  exact h m hmem v (by rwa [lookup_cons_of_ne hne])

theorem wellSeparated_substituteAll (ht : WellSeparated t) (h : ClosedValues t values) :
    WellSeparated (substituteAll t values) := by
  induction values generalizing t with
  | nil => exact ht
  | cons v values ih => exact ih (wellSeparated_substitute_head ht h) (h.tail ht.divided)

theorem placeholders_substituteAll (ht : Divided t) (h : ClosedValues t values) {m : String}
    (hm : m ∈ placeholders (substituteAll t values)) :
    m ∈ placeholders t ∧ values.lookup m = none := by
  induction values generalizing t with
  | nil => exact ⟨hm, rfl⟩
  | cons v values ih =>
    obtain ⟨hmem, hnone⟩ := ih (divided_substitute_head ht h) (h.tail ht) hm
    obtain ⟨hmem, hne⟩ := placeholders_substitute_head ht h hmem
    exact ⟨hmem, by rwa [lookup_cons_of_ne hne]⟩

/-- The first substitution and the others together fill what all the values fill. -/
theorem fillAll_substitute (ht : Divided t) (h : ClosedValues t ((name, value) :: values)) :
    fillAll (substitute t name value) values = fillAll t ((name, value) :: values) := by
  by_cases hmem : name ∈ placeholders t
  · rw [fillAll, fillAll, segments_substitute_closed ht (h.head hmem), List.flatMap_assoc]
    congr 1
    refine List.flatMap_congr fun s _ => ?_
    cases s with
    | char | dollar => rfl
    | hole n b =>
      rw [Segment.graft, Segment.fillAll]
      by_cases hn : n = name.toList
      · rw [if_pos hn, flatMap_chars fun _ => rfl, hn, String.ofList_toList, List.lookup_cons_self]
      · have hne : String.ofList n ≠ name := fun heq => hn (by rw [← heq, String.toList_ofList])
        rw [if_neg hn, lookup_cons_of_ne hne, List.flatMap_singleton, Segment.fillAll]
  · rw [substitute_eq_self ht hmem]
    refine fillAll_congr fun m hm => (lookup_cons_of_ne ?_ _ _).symm
    rintro rfl
    exact hmem hm

/-- **One name at a time.** Substitutions one after the other fill the template at once. -/
theorem substituteAll_eq_fillAll (ht : Divided t) (h : ClosedValues t values) :
    substituteAll t values = fillAll t values := by
  induction values generalizing t with
  | nil =>
    rw [fillAll, List.flatMap_congr (g := Segment.text) fun s hs => ?_, flatMap_text_segments,
      String.ofList_toList]
    · rfl
    · cases s with
      | char | hole => rfl
      | dollar => exact absurd hs ht.ne_dollar
  | cons v values ih =>
    obtain ⟨name, value⟩ := v
    rw [← fillAll_substitute ht h, ← ih (divided_substitute_head ht h) (h.tail ht)]
    rfl

/-- A template whose placeholders all have closed values leaves nothing to fill. -/
theorem closed_fillAll (ht : Divided t)
    (h : ∀ name ∈ placeholders t, ∃ value, values.lookup name = some value ∧ Closed value) :
    Closed (fillAll t values) := by
  intro hmem
  rw [fillAll, String.toList_ofList, List.mem_flatMap] at hmem
  obtain ⟨s, hs, hmem⟩ := hmem
  cases s with
  | char c =>
    obtain rfl : '$' = c := by simpa [Segment.fillAll] using hmem
    exact ht.ne_char hs
  | dollar => exact ht.ne_dollar hs
  | hole n b =>
    obtain ⟨value, hlookup, hclosed⟩ :=
      h (String.ofList n) (mem_placeholders.mpr ⟨b, by simpa using hs⟩)
    rw [Segment.fillAll, hlookup] at hmem
    exact hclosed hmem

end

/-! ## Lists and values that are looked up -/

/-- The segments of an item with the placeholder behind it. -/
theorem flatMap_text_chars_hole (u name : String) :
    (u.toList.map Segment.char ++ [Segment.hole name.toList false]).flatMap Segment.text =
      (u ++ "$" ++ name).toList := by
  rw [List.flatMap_append, flatMap_chars fun _ => rfl]
  simp [Segment.text]

/-- A placeholder that is left behind an item takes what comes next. -/
theorem substitute_chain {t name u : String} (ht : WellSeparated t) (hu : Closed u)
    (hname : IsName name.toList) (w : String) :
    substitute (substitute t name (u ++ "$" ++ name)) name w = substitute t name (u ++ w) := by
  have hsegs : segments (substitute t name (u ++ "$" ++ name)).toList = _ :=
    segments_substitute ht (flatMap_text_chars_hole u name) (insertable_chars_hole hu hname)
  rw [substitute, hsegs, List.flatMap_assoc, substitute]
  congr 1
  refine List.flatMap_congr fun s _ => ?_
  cases s with
  | char | dollar => rfl
  | hole n b =>
    rw [Segment.graft, Segment.fill]
    split
    · rw [List.flatMap_append, flatMap_chars fun _ => rfl, String.toList_append]
      simp [Segment.fill]
    · rename_i hn
      simp [Segment.fill, hn]

/-- **A list of values** comes to its items with the delimiter between them. -/
theorem substituteList_eq {t name delim : String} {items : List String} (ht : WellSeparated t)
    (h : name ∈ placeholders t → (∀ item ∈ items, Closed item) ∧ Closed delim) :
    substituteList t name items delim = substitute t name (delim.intercalate items) := by
  fun_induction substituteList t name items delim with
  | case1 t => rw [String.intercalate_nil]
  | case2 t item => rw [String.intercalate_singleton]
  | case3 t item items hne ih =>
    rw [String.intercalate_cons_of_ne_nil (by rintro rfl; exact hne rfl)]
    by_cases hmem : name ∈ placeholders t
    · obtain ⟨hitems, hdelim⟩ := h hmem
      obtain ⟨hitem, hitems⟩ := List.forall_mem_cons.mp hitems
      obtain ⟨b, hb⟩ := mem_placeholders.mp hmem
      have hname := isName_of_mem_segments hb
      have hu := hitem.append hdelim
      have ht' : WellSeparated (substitute t name (item ++ delim ++ "$" ++ name)) :=
        wellSeparated_substitute ht (flatMap_text_chars_hole _ name)
          (insertable_chars_hole hu hname)
      rw [ih ht' fun _ => ⟨hitems, hdelim⟩, substitute_chain ht hu hname]
    · rw [substitute_eq_self ht.divided hmem] at ih ⊢
      rw [ih ht fun hmem' => absurd hmem' hmem]
      exact substitute_congr hmem _ _

theorem ClosedValues.left {t : String} {vs ws : List (String × String)}
    (h : ClosedValues t (vs ++ ws)) : ClosedValues t vs := by
  intro name hname value hvalue
  refine h name hname value ?_
  rw [List.lookup_append, Option.mem_def.mp hvalue]
  rfl

/-- A list of values after other substitutions. -/
theorem substituteList_substituteAll {t name delim : String} {items : List String}
    {vs : List (String × String)} (ht : WellSeparated t) (hvs : ClosedValues t vs)
    (h : name ∈ placeholders t → (∀ item ∈ items, Closed item) ∧ Closed delim) :
    substituteList (substituteAll t vs) name items delim =
      substituteAll t (vs ++ [(name, delim.intercalate items)]) := by
  have hseparated := wellSeparated_substituteAll ht hvs
  rw [substituteList_eq hseparated fun hmem =>
    h (placeholders_substituteAll ht.divided hvs hmem).1,
    substituteAll_append]
  rfl

/-- A placeholder of the template is found as a text in it. -/
theorem mentions_of_mem_placeholders {t name : String} (h : name ∈ placeholders t) :
    mentions t name = true := by
  obtain ⟨b, hb⟩ := mem_placeholders.mp h
  obtain ⟨before, after, hsplit⟩ := List.append_of_mem hb
  have hinfix : (Segment.hole name.toList b).text <:+: t.toList := by
    refine ⟨before.flatMap Segment.text, after.flatMap Segment.text, ?_⟩
    rw [← flatMap_text_segments t.toList, hsplit, List.flatMap_append, List.flatMap_cons,
      List.append_assoc]
  have hoccurs := occursIn_of_isInfix hinfix
  unfold mentions
  cases b <;> simp [hoccurs]

/-- A value is put into the template, or it is not looked up and no value would make a difference. -/
theorem substituteWith_cases {m : Type → Type} [Monad m] (t name : String) (value : m String) :
    substituteWith t name value = substitute t name <$> value ∨
      ∀ w, substituteWith t name value = pure (substitute t name w) := by
  unfold substituteWith
  split
  · exact .inl rfl
  · rename_i hnot
    have hmem : name ∉ placeholders t := fun hmem => hnot (mentions_of_mem_placeholders hmem)
    refine .inr fun w => ?_
    rw [substitute_congr hmem "" w]

/-- A value that is not looked up is not needed. -/
theorem substituteWith_eq_ok {ε : Type} {t name t' w : String} {value : Except ε String}
    (h : substituteWith t name value = .ok t') (hw : ∀ v, value = .ok v → v = w) :
    t' = substitute t name w := by
  obtain hput | hfree := substituteWith_cases t name value
  · rw [hput] at h
    cases value with
    | error e => cases h
    | ok v =>
      obtain rfl := hw v rfl
      exact (Except.ok.inj h).symm
  · rw [hfree w] at h
    exact (Except.ok.inj h).symm

/-! ## Templates at the place of their use -/

/-- The template is well separated, and all names that it mentions are bound to closed values. Here
`bound` says of a name that it is bound, and that its value is closed. -/
def ClosedBy (template : String) (bound : String → Prop) : Prop :=
  WellSeparated template ∧ ∀ name ∈ placeholders template, bound name

instance (t : String) (bound : String → Prop) [DecidablePred bound] :
    Decidable (ClosedBy t bound) :=
  inferInstanceAs (Decidable (_ ∧ _))

/-- The text comes out as it should, and it is closed. -/
structure Faithful (text expected : String) : Prop where
  eq : text = expected
  closed : Closed expected

theorem Faithful.refl {s : String} (h : Closed s) : Faithful s s := ⟨rfl, h⟩

theorem Faithful.trim {s expected : String} (h : Faithful s expected) :
    Faithful (trim s) (trim expected) :=
  ⟨by rw [h.eq], h.closed.trim⟩

/-- What is put into the template is what the values `ws` say, and it is closed. -/
def FaithfulValues (template : String) (vs ws : List (String × String)) : Prop :=
  ∀ name ∈ placeholders template,
    ∃ v w, vs.lookup name = some v ∧ ws.lookup name = some w ∧ Faithful v w

section

variable {t : String} {vs ws : List (String × String)}

theorem FaithfulValues.closedValues (h : FaithfulValues t vs ws) : ClosedValues t vs := by
  intro name hname value hvalue
  obtain ⟨v, w, hv, -, rfl, hclosed⟩ := h name hname
  obtain rfl : v = value := by simpa [hv] using hvalue
  exact hclosed

/-- A template is filled as it should be if the values of its names are. -/
theorem FaithfulValues.faithful (h : FaithfulValues t vs ws) (ht : WellSeparated t) :
    Faithful (substituteAll t vs) (fillAll t ws) := by
  constructor
  · rw [substituteAll_eq_fillAll ht.divided h.closedValues]
    refine fillAll_congr fun name hname => ?_
    obtain ⟨v, w, hv, hw, rfl, -⟩ := h name hname
    rw [hv, hw]
  · refine closed_fillAll ht.divided fun name hname => ?_
    obtain ⟨v, w, -, hw, -, hclosed⟩ := h name hname
    exact ⟨w, hw, hclosed⟩

/-- The last of the values may be a list. -/
theorem FaithfulValues.faithful_list {name delim : String} {items : List String}
    (h : FaithfulValues t (vs ++ [(name, delim.intercalate items)]) ws) (ht : WellSeparated t)
    (hitems : name ∈ placeholders t → (∀ item ∈ items, Closed item) ∧ Closed delim) :
    Faithful (substituteList (substituteAll t vs) name items delim) (fillAll t ws) := by
  rw [substituteList_substituteAll ht h.closedValues.left hitems]
  exact h.faithful ht

theorem ClosedBy.faithful {bound : String → Prop} (ht : ClosedBy t bound)
    (h : ∀ name, bound name →
      ∃ v w, vs.lookup name = some v ∧ ws.lookup name = some w ∧ Faithful v w) :
    Faithful (substituteAll t vs) (fillAll t ws) :=
  FaithfulValues.faithful (fun name hname => h name (ht.2 name hname)) ht.1

end

/-- A template with one name. -/
theorem ClosedBy.faithful_substitute {t name v w : String} {p : Prop}
    (ht : ClosedBy t fun m => m = name ∧ p) (h : p → Faithful v w) :
    Faithful (substitute t name v) (fillAll t [(name, w)]) := by
  change Faithful (substituteAll t [(name, v)]) _
  refine ht.faithful ?_
  rintro _ ⟨rfl, hp⟩
  exact ⟨v, w, by simp, by simp, h hp⟩

end IntervalSuite.Template
