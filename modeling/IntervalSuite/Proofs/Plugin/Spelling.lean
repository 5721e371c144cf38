import IntervalSuite.Plugin.Selector
import IntervalSuite.Proofs.Text.Blanks
import IntervalSuite.Proofs.Text.Run
import Mathlib.Data.List.Basic

/-!
# How selectors are spelled

A selector other than `*` is a list of triples. It is spelled by the pieces of these triples in their
order, with blanks around every piece: brackets, commas, names in their quotes, and semicolons between
two triples. Reading accepts these spellings and no others.

* `Spells`: the text is made of the pieces, with blanks around them.
* `spells_mark_iff`, `spells_name_iff`: one step of the reader takes one piece.
* `choice?_eq_some_iff`, `mapM_splitOn_eq_some_iff`: a triple, and a list of triples, is read from its
  spellings.
* `Selector.parse_exact`: the selectors that a text spells, and configurations read back.
-/

namespace IntervalSuite.Plugin

open Text

/-! ## Pieces with blanks around them -/

/-- The text is made of the pieces in their order, with blanks before, between and behind them. -/
inductive Spells : List (List Char) → List Char → Prop where
  | nil {gap : List Char} (hgap : ∀ c ∈ gap, isBlank c) : Spells [] gap
  | cons {gap piece rest : List Char} {pieces : List (List Char)} (hgap : ∀ c ∈ gap, isBlank c)
      (hrest : Spells pieces rest) : Spells (piece :: pieces) (gap ++ (piece ++ rest))

/-- The piece is not empty and has no blanks in it. -/
structure Solid (piece : List Char) : Prop where
  ne_nil : piece ≠ []
  notBlank : ∀ c ∈ piece, isBlank c = false

section

variable {piece gap cs rest : List Char} {pieces more : List (List Char)}

theorem Solid.stops (h : Solid piece) (rest : List Char) : Stops isBlank (piece ++ rest) := by
  obtain ⟨c, cs, rfl⟩ := List.exists_cons_of_ne_nil h.ne_nil
  exact .cons (h.notBlank c List.mem_cons_self) _

theorem spells_nil_iff : Spells [] cs ↔ ∀ c ∈ cs, isBlank c := by
  constructor
  · rintro ⟨hgap⟩
    assumption
  · exact .nil

theorem spells_cons_iff :
    Spells (piece :: pieces) cs ↔
      ∃ gap rest, cs = gap ++ (piece ++ rest) ∧ (∀ c ∈ gap, isBlank c) ∧ Spells pieces rest := by
  constructor
  · rintro (_ | ⟨hgap, hrest⟩)
    exact ⟨_, _, rfl, hgap, hrest⟩
  · rintro ⟨gap, rest, rfl, hgap, hrest⟩
    exact .cons hgap hrest

/-- Blanks in front of a text make no difference. -/
theorem Spells.blanks_append (hgap : ∀ c ∈ gap, isBlank c) (h : Spells pieces cs) :
    Spells pieces (gap ++ cs) := by
  cases h with
  | nil hgap' => exact .nil (List.forall_mem_append.mpr ⟨hgap, hgap'⟩)
  | cons hgap' hrest =>
    rw [← List.append_assoc]
    exact .cons (List.forall_mem_append.mpr ⟨hgap, hgap'⟩) hrest

/-- Blanks behind a text make no difference. -/
theorem Spells.append_blanks (h : Spells pieces cs) (hgap : ∀ c ∈ gap, isBlank c) :
    Spells pieces (cs ++ gap) := by
  induction h with
  | nil hgap' => exact .nil (List.forall_mem_append.mpr ⟨hgap', hgap⟩)
  | cons hgap' _ ih =>
    rw [List.append_assoc, List.append_assoc]
    exact .cons hgap' ih

/-- The pieces of two lists stand one behind the other. -/
theorem spells_append_iff :
    Spells (pieces ++ more) cs ↔
      ∃ front back, cs = front ++ back ∧ Spells pieces front ∧ Spells more back := by
  induction pieces generalizing cs with
  | nil =>
    constructor
    · exact fun h => ⟨[], cs, rfl, .nil (by simp), h⟩
    · rintro ⟨front, back, rfl, hfront, hback⟩
      exact hback.blanks_append (spells_nil_iff.mp hfront)
  | cons piece pieces ih =>
    rw [List.cons_append, spells_cons_iff]
    constructor
    · rintro ⟨gap, rest, rfl, hgap, hrest⟩
      obtain ⟨front, back, rfl, hfront, hback⟩ := ih.mp hrest
      exact ⟨gap ++ (piece ++ front), back, by simp, .cons hgap hfront, hback⟩
    · rintro ⟨front, back, rfl, hfront, hback⟩
      obtain ⟨gap, rest, rfl, hgap, hrest⟩ := spells_cons_iff.mp hfront
      exact ⟨gap, rest ++ back, by simp, hgap, ih.mpr ⟨rest, back, rfl, hrest, hback⟩⟩

/-- The characters of the pieces are those of the text, but for blanks. -/
theorem Spells.mem_iff (h : Spells pieces cs) {c : Char} (hc : isBlank c = false) :
    c ∈ cs ↔ ∃ piece ∈ pieces, c ∈ piece := by
  have hnot : ∀ gap : List Char, (∀ d ∈ gap, isBlank d) → c ∉ gap := fun gap hgap hmem => by
    rw [hgap c hmem] at hc
    cases hc
  induction h with
  | nil hgap => simp [hnot _ hgap]
  | cons hgap _ ih => simp [hnot _ hgap, ih]

/-- Behind a mark, a new text starts. -/
theorem spells_separated_iff {mark : Char} :
    Spells (pieces ++ [mark] :: more) cs ↔
      ∃ front back, cs = front ++ mark :: back ∧ Spells pieces front ∧ Spells more back := by
  rw [spells_append_iff]
  constructor
  · rintro ⟨front, behind, rfl, hfront, hbehind⟩
    obtain ⟨gap, back, rfl, hgap, hback⟩ := spells_cons_iff.mp hbehind
    exact ⟨front ++ gap, back, by simp, hfront.append_blanks hgap, hback⟩
  · rintro ⟨front, back, rfl, hfront, hback⟩
    exact ⟨front, mark :: back, rfl, hfront, spells_cons_iff.mpr ⟨[], back, rfl, by simp, hback⟩⟩

/-! ## Blanks that do not matter -/

/-- The blanks in front of a text can be dropped. -/
theorem spells_dropWhile_iff (hpieces : ∀ piece ∈ pieces, Solid piece) :
    Spells pieces (cs.dropWhile isBlank) ↔ Spells pieces cs := by
  constructor
  · intro h
    rw [← List.takeWhile_append_dropWhile (p := isBlank) (l := cs)]
    exact h.blanks_append fun _ hc => List.mem_takeWhile_imp hc
  · intro h
    cases h with
    | nil hgap =>
      rw [List.dropWhile_eq_nil_iff.mpr hgap]
      exact .nil (by simp)
    | cons hgap hrest =>
      have hstops := (hpieces _ List.mem_cons_self).stops
      rw [List.dropWhile_append_of_pos hgap, (hstops _).dropWhile_eq]
      exact spells_cons_iff.mpr ⟨[], _, rfl, by simp, hrest⟩

/-- The blanks behind a text can be left out. -/
theorem Spells.of_append_blanks (hpieces : ∀ piece ∈ pieces, Solid piece)
    (hgap : ∀ c ∈ gap, isBlank c) (h : Spells pieces (cs ++ gap)) : Spells pieces cs := by
  induction pieces generalizing cs with
  | nil => exact .nil fun c hc => spells_nil_iff.mp h c (List.mem_append_left _ hc)
  | cons piece pieces ih =>
    obtain ⟨hpiece, hpieces⟩ := List.forall_mem_cons.mp hpieces
    obtain ⟨before, rest, hcs, hbefore, hrest⟩ := spells_cons_iff.mp h
    rw [← List.append_assoc] at hcs
    rcases List.append_eq_append_iff.mp hcs with ⟨excess, hfront, rfl⟩ | ⟨excess, rfl, rfl⟩
    · -- The piece ends with the text, as it does not end with a blank.
      have hexcess : excess = [] := by
        by_contra hne
        have hlast : piece.getLast? = excess.getLast? := by
          rw [← List.getLast?_append_of_ne_nil before hpiece.ne_nil, hfront,
            List.getLast?_append_of_ne_nil cs hne]
        have hblank := hgap _ (List.mem_append_left rest (List.getLast_mem hne))
        rw [List.getLast?_eq_some_getLast hne] at hlast
        rw [hpiece.notBlank _ (List.mem_of_getLast? hlast)] at hblank
        cases hblank
      subst hexcess
      rw [List.append_nil] at hfront
      have hend : Spells pieces [] := ih hpieces hrest
      exact spells_cons_iff.mpr ⟨before, [], by simp [hfront], hbefore, hend⟩
    · rw [List.append_assoc]
      exact .cons hbefore (ih hpieces hrest)

theorem spells_trimChars_iff (hpieces : ∀ piece ∈ pieces, Solid piece) :
    Spells pieces (trimChars cs) ↔ Spells pieces cs := by
  obtain ⟨p, q, hcs, hp, hq⟩ := exists_trimChars cs
  constructor
  · intro h
    rw [hcs]
    exact (h.append_blanks hq).blanks_append hp
  · intro h
    rw [hcs, ← spells_dropWhile_iff hpieces, List.dropWhile_append_of_pos hp,
      spells_dropWhile_iff hpieces] at h
    exact .of_append_blanks hpieces hq h

end

/-! ## Names in quotes -/

theorem word_of_isIdentifier {name : List Char} (h : isIdentifier name) :
    ∀ c ∈ name, c.isAlphanum || c == '_' := by
  cases name with
  | nil => simp
  | cons c cs =>
    simp only [isIdentifier, Bool.and_eq_true, List.all_eq_true] at h
    refine List.forall_mem_cons.mpr ⟨?_, h.2⟩
    simp [Char.isAlphanum, h.1]

/-- The name as it is written in a triple, where a name that is left open is a `*`. -/
def quoted : Option String → List Char
  | none => ['\'', '*', '\'']
  | some name => '\'' :: (name.toList ++ ['\''])

/-- If a name is given, it is an identifier. -/
def Named (given : Option String) : Prop := ∀ name ∈ given, isIdentifier name.toList

instance : DecidablePred Named :=
  fun given => inferInstanceAs (Decidable (∀ name ∈ given, isIdentifier name.toList))

theorem Named.word {name : String} (h : Named (some name)) :
    ∀ c ∈ name.toList, c.isAlphanum || c == '_' :=
  word_of_isIdentifier (h name rfl)

theorem Named.mem_quoted {given : Option String} (h : Named given) {c : Char} (hc : c ∈ quoted given) :
    c = '\'' ∨ c = '*' ∨ c.isAlphanum || c == '_' := by
  cases given with
  | none =>
    simp only [quoted, List.mem_cons, List.not_mem_nil, or_false] at hc
    tauto
  | some name =>
    simp only [quoted, List.mem_cons, List.mem_append, List.not_mem_nil, or_false] at hc
    rcases hc with rfl | hc | rfl
    · exact .inl rfl
    · exact .inr (.inr (h.word c hc))
    · exact .inl rfl

theorem Named.solid {given : Option String} (h : Named given) : Solid (quoted given) := by
  refine ⟨by cases given <;> simp [quoted], fun c hc => ?_⟩
  rcases h.mem_quoted hc with rfl | rfl | hword
  · decide
  · decide
  · exact isBlank_of_word hword

/-- What stands behind the opening quote, up to the closing one. -/
theorem quotedName?_append {name rest : List Char} (h : '\'' ∉ name) :
    quotedName? ('\'' :: (name ++ '\'' :: rest)) =
      if name = ['*'] then some (none, rest)
      else if isIdentifier name then some (some (String.ofList name), rest)
      else none := by
  have hname : (name ++ '\'' :: rest).takeWhile (· ≠ '\'') = name :=
    takeWhile_run (fun c hc => by simpa using fun heq : c = '\'' => h (heq ▸ hc))
      (.cons (by decide) rest)
  simp only [quotedName?, hname, List.drop_left]

/-- The reader takes a name in its quotes off the start of a text. -/
theorem quotedName?_eq_some_iff {cs rest : List Char} {given : Option String} :
    quotedName? cs = some (given, rest) ↔ Named given ∧ cs = quoted given ++ rest := by
  constructor
  · intro h
    obtain ⟨cs, rfl⟩ : ∃ behind, cs = '\'' :: behind := by
      unfold quotedName? at h
      split at h
      · exact ⟨_, rfl⟩
      · cases h
    obtain ⟨name, behind, rfl, hname, hstops⟩ := exists_run (· ≠ '\'') cs
    have hquote : '\'' ∉ name := fun hmem => by simpa using hname _ hmem
    cases behind with
    | nil =>
      -- There is no closing quote.
      have hall : name.takeWhile (· ≠ '\'') = name := List.takeWhile_eq_self_iff.mpr hname
      simp only [quotedName?, List.append_nil, hall, List.drop_length] at h
      cases h
    | cons d behind =>
      obtain rfl : d = '\'' := by simpa using hstops d rfl
      rw [quotedName?_append hquote] at h
      split at h
      · rename_i hstar
        cases h
        exact ⟨by simp [Named], by simp [quoted, hstar]⟩
      · split at h
        · rename_i hidentifier
          cases h
          exact ⟨by simpa [Named] using hidentifier, by simp [quoted]⟩
        · cases h
  · rintro ⟨hnamed, rfl⟩
    cases given with
    | none => rfl
    | some name =>
      have hword := hnamed.word
      have hquote : '\'' ∉ name.toList := fun hmem => by
        cases hword _ hmem
      have hstar : name.toList ≠ ['*'] := fun heq => by
        rw [heq] at hword
        cases hword '*' (by simp)
      rw [quoted, List.cons_append, List.append_assoc, List.singleton_append,
        quotedName?_append hquote, if_neg hstar, if_pos (hnamed name rfl), String.ofList_toList]

/-! ## Steps of the reader -/

section

variable {cs : List Char} {pieces : List (List Char)} {mark : Char} {given : Option String}

/-- A mark is taken together with the blanks around it. -/
theorem spells_mark_iff (hmark : isBlank mark = false) (hpieces : ∀ piece ∈ pieces, Solid piece) :
    Spells ([mark] :: pieces) cs ↔
      ∃ rest, dropMark? mark cs = some rest ∧ Stops isBlank rest ∧ Spells pieces rest := by
  rw [spells_cons_iff]
  constructor
  · rintro ⟨gap, rest, rfl, hgap, hrest⟩
    refine ⟨rest.dropWhile isBlank, ?_, stops_dropWhile isBlank rest,
      (spells_dropWhile_iff hpieces).mpr hrest⟩
    have hfront : (gap ++ ([mark] ++ rest)).dropWhile isBlank = mark :: rest := by
      rw [List.dropWhile_append_of_pos hgap]
      exact (Stops.cons hmark rest).dropWhile_eq
    rw [dropMark?, hfront]
    exact if_pos rfl
  · rintro ⟨rest, hrest, -, hspells⟩
    unfold dropMark? at hrest
    split at hrest
    · cases hrest
    · rename_i c behind hfront
      split at hrest
      · rename_i hc
        subst hc
        obtain rfl := Option.some.inj hrest
        refine ⟨cs.takeWhile isBlank, behind, ?_, fun _ h => List.mem_takeWhile_imp h,
          (spells_dropWhile_iff hpieces).mp hspells⟩
        rw [List.singleton_append, ← hfront, List.takeWhile_append_dropWhile]
      · cases hrest

/-- A mark and the name behind it are taken one after the other. -/
theorem spells_name_iff (hmark : isBlank mark = false) (hpieces : ∀ piece ∈ pieces, Solid piece) :
    (Named given ∧ Spells ([mark] :: quoted given :: pieces) cs) ↔
      ∃ behind, dropMark? mark cs = some behind ∧
        ∃ rest, quotedName? behind = some (given, rest) ∧ Spells pieces rest := by
  constructor
  · rintro ⟨hnamed, h⟩
    obtain ⟨behind, hbehind, hstops, hspells⟩ :=
      (spells_mark_iff hmark (List.forall_mem_cons.mpr ⟨hnamed.solid, hpieces⟩)).mp h
    obtain ⟨gap, rest, rfl, hgap, hrest⟩ := spells_cons_iff.mp hspells
    -- The blanks in front of the name are gone with the mark.
    obtain rfl : gap = [] := by
      cases gap with
      | nil => rfl
      | cons c gap =>
        have hblank := hgap c List.mem_cons_self
        rw [hstops c rfl] at hblank
        cases hblank
    exact ⟨_, hbehind, rest, quotedName?_eq_some_iff.mpr ⟨hnamed, rfl⟩, hrest⟩
  · rintro ⟨behind, hbehind, rest, hname, hrest⟩
    obtain ⟨hnamed, rfl⟩ := quotedName?_eq_some_iff.mp hname
    refine ⟨hnamed, (spells_mark_iff hmark (List.forall_mem_cons.mpr ⟨hnamed.solid, hpieces⟩)).mpr
      ⟨_, hbehind, hnamed.solid.stops rest, ?_⟩⟩
    exact spells_cons_iff.mpr ⟨[], rest, rfl, by simp, hrest⟩

end

/-! ## Triples -/

/-- The names that a choice gives are identifiers. -/
structure Choice.Named (choice : Choice) : Prop where
  language : Plugin.Named choice.language
  testLibrary : Plugin.Named choice.testLibrary
  arithLibrary : Plugin.Named choice.arithLibrary

instance : DecidablePred Choice.Named := fun choice =>
  decidable_of_iff (Named choice.language ∧ Named choice.testLibrary ∧ Named choice.arithLibrary)
    ⟨fun ⟨hl, ht, ha⟩ => ⟨hl, ht, ha⟩, fun h => ⟨h.language, h.testLibrary, h.arithLibrary⟩⟩

/-- The pieces of a triple. -/
def Choice.pieces (choice : Choice) : List (List Char) :=
  [['('], quoted choice.language, [','], quoted choice.testLibrary, [','],
    quoted choice.arithLibrary, [')']]

theorem solid_mark {c : Char} (h : isBlank c = false) : Solid [c] :=
  ⟨by simp, fun d hd => List.mem_singleton.mp hd ▸ h⟩

theorem Solid.mark_name {mark : Char} {given : Option String} {pieces : List (List Char)}
    (hmark : isBlank mark = false) (hgiven : Named given) (h : ∀ piece ∈ pieces, Solid piece) :
    ∀ piece ∈ [mark] :: quoted given :: pieces, Solid piece :=
  List.forall_mem_cons.mpr ⟨solid_mark hmark, List.forall_mem_cons.mpr ⟨hgiven.solid, h⟩⟩

theorem solid_close : ∀ piece ∈ [[')']], Solid piece := by
  simpa using solid_mark (by decide)

theorem Choice.Named.solid {choice : Choice} (h : choice.Named) :
    ∀ piece ∈ choice.pieces, Solid piece :=
  .mark_name (by decide) h.language (.mark_name (by decide) h.testLibrary
    (.mark_name (by decide) h.arithLibrary solid_close))

/-- **A triple is read from its spellings**, and from no other text. -/
theorem choice?_eq_some_iff {cs : List Char} {choice : Choice} :
    choice? cs = some choice ↔ choice.Named ∧ Spells choice.pieces cs := by
  obtain ⟨language, test, arith⟩ := choice
  have hcomma : isBlank ',' = false := by decide
  simp only [choice?, Option.bind_eq_bind, Option.bind_eq_some_iff]
  constructor
  · rintro ⟨cs₁, hopen, ⟨_, r₁⟩, hl, cs₂, hfirst, ⟨_, r₂⟩, ht, cs₃, hsecond, ⟨_, r₃⟩, ha, rest, hclose,
      hchoice⟩
    simp only [Option.ite_none_right_eq_some, List.isEmpty_iff, Option.some.injEq,
      Choice.mk.injEq] at hchoice
    obtain ⟨rfl, rfl, rfl, rfl⟩ := hchoice
    have hend : Spells [[')']] r₃ :=
      (spells_mark_iff (by decide) (by simp)).mpr ⟨[], hclose, by decide, .nil (by simp)⟩
    obtain ⟨harith, hend⟩ := (spells_name_iff hcomma solid_close).mpr ⟨cs₃, hsecond, r₃, ha, hend⟩
    have hsolid := Solid.mark_name hcomma harith solid_close
    obtain ⟨htest, hend⟩ := (spells_name_iff hcomma hsolid).mpr ⟨cs₂, hfirst, r₂, ht, hend⟩
    have hsolid := Solid.mark_name hcomma htest hsolid
    obtain ⟨hlanguage, hend⟩ :=
      (spells_name_iff (by decide) hsolid).mpr ⟨cs₁, hopen, r₁, hl, hend⟩
    exact ⟨⟨hlanguage, htest, harith⟩, hend⟩
  · rintro ⟨⟨hlanguage, htest, harith⟩, h⟩
    have hsolid := Solid.mark_name hcomma harith solid_close
    obtain ⟨cs₁, hopen, r₁, hl, h⟩ := (spells_name_iff (by decide)
      (Solid.mark_name hcomma htest hsolid)).mp ⟨hlanguage, h⟩
    obtain ⟨cs₂, hfirst, r₂, ht, h⟩ := (spells_name_iff hcomma hsolid).mp ⟨htest, h⟩
    obtain ⟨cs₃, hsecond, r₃, ha, h⟩ := (spells_name_iff hcomma solid_close).mp ⟨harith, h⟩
    obtain ⟨rest, hclose, hstops, h⟩ := (spells_mark_iff (by decide) (by simp)).mp h
    -- What is left is blank and does not start with a blank.
    have hrest : rest = [] := by
      rw [← hstops.dropWhile_eq]
      exact List.dropWhile_eq_nil_iff.mpr (spells_nil_iff.mp h)
    exact ⟨cs₁, hopen, _, hl, cs₂, hfirst, _, ht, cs₃, hsecond, _, ha, rest, hclose, by simp [hrest]⟩

/-! ## Lists of triples -/

/-- The pieces of a list of triples, with semicolons between two of them. -/
def selectorPieces (choices : List Choice) : List (List Char) :=
  [[';']].intercalate (choices.map Choice.pieces)

theorem selectorPieces_singleton (choice : Choice) : selectorPieces [choice] = choice.pieces := by
  rw [selectorPieces, List.map_singleton, List.intercalate_singleton]

theorem selectorPieces_cons_cons (choice next : Choice) (choices : List Choice) :
    selectorPieces (choice :: next :: choices) =
      choice.pieces ++ [';'] :: selectorPieces (next :: choices) := by
  rw [selectorPieces, List.map_cons, List.map_cons, List.intercalate_cons_cons, List.append_assoc]
  rfl

theorem solid_selectorPieces {choices : List Choice} (h : ∀ choice ∈ choices, choice.Named) :
    ∀ piece ∈ selectorPieces choices, Solid piece := by
  induction choices with
  | nil => simp [selectorPieces]
  | cons choice choices ih =>
    obtain ⟨hchoice, hchoices⟩ := List.forall_mem_cons.mp h
    cases choices with
    | nil =>
      rw [selectorPieces_singleton]
      exact hchoice.solid
    | cons next choices =>
      rw [selectorPieces_cons_cons]
      exact List.forall_mem_append.mpr
        ⟨hchoice.solid, List.forall_mem_cons.mpr ⟨solid_mark (by decide), ih hchoices⟩⟩

/-- A triple has no semicolon in it. -/
theorem Choice.Named.noSemicolon {choice : Choice} (h : choice.Named) {cs : List Char}
    (hcs : Spells choice.pieces cs) : ';' ∉ cs := by
  have hquoted {given : Option String} (hgiven : Plugin.Named given) : ';' ∉ quoted given := by
    intro hmem
    obtain hc | hc | hc := hgiven.mem_quoted hmem <;> cases hc
  rw [hcs.mem_iff (by decide)]
  simp [Choice.pieces, hquoted h.language, hquoted h.testLibrary, hquoted h.arithLibrary]

/-- The text spells the choices: at least one triple, with identifiers and `*` for names. -/
structure Spelled (choices : List Choice) (cs : List Char) : Prop where
  ne_nil : choices ≠ []
  named : ∀ choice ∈ choices, choice.Named
  spells : Spells (selectorPieces choices) cs

theorem spelled_of_mapM {texts : List (List Char)} {choices : List Choice} (hne : texts ≠ [])
    (h : texts.mapM choice? = some choices) : Spelled choices ([';'].intercalate texts) := by
  induction texts generalizing choices with
  | nil => exact absurd rfl hne
  | cons text texts ih =>
    simp only [List.mapM_cons, Option.bind_eq_bind, Option.bind_eq_some_iff] at h
    obtain ⟨choice, hchoice, rest, hrest, hchoices⟩ := h
    obtain rfl := Option.some.inj hchoices
    obtain ⟨hnamed, hspells⟩ := choice?_eq_some_iff.mp hchoice
    cases texts with
    | nil =>
      obtain rfl : rest = [] := (Option.some.inj hrest).symm
      refine ⟨by simp, by simpa using hnamed, ?_⟩
      rwa [selectorPieces_singleton, List.intercalate_singleton]
    | cons next texts =>
      obtain ⟨hrestne, hrestnamed, hrestspells⟩ := ih (by simp) hrest
      obtain ⟨second, rest, rfl⟩ := List.exists_cons_of_ne_nil hrestne
      refine ⟨by simp, List.forall_mem_cons.mpr ⟨hnamed, hrestnamed⟩, ?_⟩
      rw [selectorPieces_cons_cons, List.intercalate_cons_cons, List.append_assoc]
      exact spells_separated_iff.mpr ⟨text, _, rfl, hspells, hrestspells⟩

theorem Spelled.mapM_splitOn {choices : List Choice} {cs : List Char} (h : Spelled choices cs) :
    (cs.splitOn ';').mapM choice? = some choices := by
  obtain ⟨hne, hnamed, hspells⟩ := h
  induction choices generalizing cs with
  | nil => exact absurd rfl hne
  | cons choice choices ih =>
    obtain ⟨hchoice, hchoices⟩ := List.forall_mem_cons.mp hnamed
    cases choices with
    | nil =>
      rw [selectorPieces_singleton] at hspells
      rw [List.splitOn_eq_singleton (hchoice.noSemicolon hspells), List.mapM_cons,
        choice?_eq_some_iff.mpr ⟨hchoice, hspells⟩]
      rfl
    | cons next choices =>
      rw [selectorPieces_cons_cons] at hspells
      obtain ⟨front, back, rfl, hfront, hback⟩ := spells_separated_iff.mp hspells
      rw [List.splitOn_append_cons_self, List.splitOn_eq_singleton (hchoice.noSemicolon hfront),
        List.singleton_append, List.mapM_cons, choice?_eq_some_iff.mpr ⟨hchoice, hfront⟩,
        ih (by simp) hchoices hback]
      rfl

/-- **A list of triples is read from its spellings**, and from no other text. -/
theorem mapM_splitOn_eq_some_iff {cs : List Char} {choices : List Choice} :
    (cs.splitOn ';').mapM choice? = some choices ↔ Spelled choices cs := by
  refine ⟨fun h => ?_, Spelled.mapM_splitOn⟩
  have hspelled := spelled_of_mapM (List.splitOn_ne_nil ';' cs) h
  rwa [List.intercalate_splitOn] at hspelled

/-- Blanks at the ends of a text make no difference. -/
theorem spelled_trimChars_iff {choices : List Choice} {cs : List Char} :
    Spelled choices (trimChars cs) ↔ Spelled choices cs := by
  constructor
  · rintro ⟨hne, hnamed, h⟩
    exact ⟨hne, hnamed, (spells_trimChars_iff (solid_selectorPieces hnamed)).mp h⟩
  · rintro ⟨hne, hnamed, h⟩
    exact ⟨hne, hnamed, (spells_trimChars_iff (solid_selectorPieces hnamed)).mpr h⟩

/-- A triple has a bracket. -/
theorem Spelled.bracket_mem {choices : List Choice} {cs : List Char} (h : Spelled choices cs) :
    '(' ∈ cs := by
  obtain ⟨choice, choices, rfl⟩ := List.exists_cons_of_ne_nil h.ne_nil
  rw [h.spells.mem_iff (by decide)]
  refine ⟨['('], ?_, by simp⟩
  cases choices with
  | nil => simp [selectorPieces_singleton, Choice.pieces]
  | cons next choices => simp [selectorPieces_cons_cons, Choice.pieces]

/-! ## Selectors -/

theorem Selector.parse?_eq_all_iff {s : String} :
    Selector.parse? s = some .all ↔ trim s = "" ∨ trim s = "*" := by
  have htrim (cs : List Char) : trim s = String.ofList cs ↔ trimChars s.toList = cs :=
    String.ofList_inj
  rw [show "" = String.ofList [] from rfl, show "*" = String.ofList ['*'] from rfl, htrim, htrim]
  unfold Selector.parse?
  dsimp only
  split
  · rename_i hall
    exact iff_of_true rfl hall
  · rename_i hall
    exact iff_of_false (by simp) hall

theorem Selector.parse?_eq_choices_iff {s : String} {choices : List Choice} :
    Selector.parse? s = some (.choices choices) ↔ Spelled choices s.toList := by
  rw [← spelled_trimChars_iff, Selector.parse?]
  split
  · -- Neither nothing nor a star alone has a bracket in it.
    rename_i hall
    refine iff_of_false (by simp) fun h => ?_
    have hbracket := h.bracket_mem
    rcases hall with hall | hall <;> simp [hall] at hbracket
  · rw [← mapM_splitOn_eq_some_iff, Option.map_eq_some_iff]
    simp

theorem Selector.parse_eq_ok_iff {s : String} {selector : Selector} :
    Selector.parse s = .ok selector ↔ Selector.parse? s = some selector := by
  unfold Selector.parse
  split <;> simp [*]

theorem Selector.parse_eq_error_iff {s : String} {e : Error} :
    Selector.parse s = .error e ↔ e = .selector s ∧ Selector.parse? s = none := by
  unfold Selector.parse
  split <;> simp [*, eq_comm]

/-! ## Configurations as selectors -/

/-- The triple that asks for one configuration. -/
def Configuration.choice (c : Configuration) : Choice :=
  ⟨some c.language, some c.testLibrary, some c.arithLibrary⟩

/-- A configuration is written as the triple that asks for it. -/
theorem Configuration.spells_text (c : Configuration) : Spells c.choice.pieces c.text.toList := by
  have htext : c.text.toList = [] ++ (['('] ++ ([] ++ (quoted (some c.language) ++ ([] ++ ([','] ++
      ([' '] ++ (quoted (some c.testLibrary) ++ ([] ++ ([','] ++ ([' '] ++
      (quoted (some c.arithLibrary) ++ ([] ++ ([')'] ++ []))))))))))))) := by
    simp [Configuration.text, quoted, toString]
  have hnone : ∀ c ∈ ([] : List Char), isBlank c := by simp
  have hspace : ∀ c ∈ [' '], isBlank c := List.all_eq_true.mp rfl
  rw [htext]
  exact .cons hnone (.cons hnone (.cons hnone (.cons hspace (.cons hnone (.cons hspace
    (.cons hnone (.nil hnone)))))))

theorem Configuration.spelled_join {configurations : List Configuration}
    (hne : configurations ≠ []) (hnamed : ∀ c ∈ configurations, c.choice.Named) :
    Spelled (configurations.map choice) (";".intercalate (configurations.map text)).toList := by
  refine ⟨by simpa using hne, by simpa using hnamed, ?_⟩
  rw [String.toList_intercalate]
  induction configurations with
  | nil => exact absurd rfl hne
  | cons c configurations ih =>
    cases configurations with
    | nil => simpa [selectorPieces_singleton] using c.spells_text
    | cons next configurations =>
      have hrest := ih (by simp) (List.forall_mem_cons.mp hnamed).2
      exact spells_separated_iff.mpr ⟨_, _, by simp, c.spells_text, hrest⟩

/-- **Reading accepts the spellings of selectors and no other text, and reads back what is
written.** A text with nothing or a star between its blanks stands for every configuration, a text
that spells triples for these triples, and any other text is named in the error. Configurations as
they are written, with semicolons between them, are the selector for these configurations. -/
theorem Selector.parse_exact :
    (∀ s, (Selector.parse s = .ok .all ↔ trim s = "" ∨ trim s = "*") ∧
      (∀ choices, Selector.parse s = .ok (.choices choices) ↔ Spelled choices s.toList) ∧
      ∀ e, Selector.parse s = .error e ↔
        e = .selector s ∧ ¬ (trim s = "" ∨ trim s = "*") ∧ ∀ choices, ¬ Spelled choices s.toList) ∧
    ∀ configurations : List Configuration, configurations ≠ [] →
      (∀ c ∈ configurations, c.choice.Named) →
      Selector.parse (";".intercalate (configurations.map Configuration.text)) =
        .ok (.choices (configurations.map Configuration.choice)) := by
  constructor
  · intro s
    have hall := @Selector.parse?_eq_all_iff s
    have hchoices := @Selector.parse?_eq_choices_iff s
    simp only [Selector.parse_eq_ok_iff, Selector.parse_eq_error_iff]
    refine ⟨hall, fun _ => hchoices, fun e => and_congr_right fun _ => ?_⟩
    simp only [← hall, ← hchoices]
    rcases Selector.parse? s with _ | _ | choices <;> simp
  · intro configurations hne hnamed
    rw [Selector.parse_eq_ok_iff, Selector.parse?_eq_choices_iff]
    exact Configuration.spelled_join hne hnamed

theorem Selector.parse_exact_boost :
    Spelled [⟨some "cpp", none, some "lib_1"⟩] " ( 'cpp' ,'*',\t'lib_1')\u00a0".toList ∧
    Selector.parse " ( 'cpp' ,'*',\t'lib_1')\u00a0" =
      .ok (.choices [⟨some "cpp", none, some "lib_1"⟩]) ∧
    Selector.parse "('cpp', 'BOOST', 'MPFI');('c', 'TAP', 'MPFI')" =
      .ok (.choices [⟨"cpp", "BOOST", "MPFI"⟩, ⟨"c", "TAP", "MPFI"⟩]) := by
  have hspelled : Spelled [⟨some "cpp", none, some "lib_1"⟩]
      " ( 'cpp' ,'*',\t'lib_1')\u00a0".toList := by
    refine ⟨by simp, by decide, ?_⟩
    have htext : " ( 'cpp' ,'*',\t'lib_1')\u00a0".toList =
        [' '] ++ (['('] ++ ([' '] ++ (quoted (some "cpp") ++ ([' '] ++ ([','] ++ ([] ++
        (quoted none ++ ([] ++ ([','] ++ (['\t'] ++ (quoted (some "lib_1") ++ ([] ++
        ([')'] ++ ['\u00a0']))))))))))))) := by decide
    have hgap {gap : List Char} (h : gap.all isBlank) : ∀ c ∈ gap, isBlank c :=
      List.all_eq_true.mp h
    rw [htext]
    exact .cons (hgap rfl) (.cons (hgap rfl) (.cons (hgap rfl) (.cons (hgap rfl)
      (.cons (hgap rfl) (.cons (hgap rfl) (.cons (hgap rfl) (.nil (hgap rfl))))))))
  refine ⟨hspelled, ((Selector.parse_exact.1 _).2.1 _).mpr hspelled, ?_⟩
  exact Selector.parse_exact.2 [⟨"cpp", "BOOST", "MPFI"⟩, ⟨"c", "TAP", "MPFI"⟩] (by simp) (by decide)

end IntervalSuite.Plugin
