import IntervalSuite.Proofs.Itl.Printing
import Mathlib.Data.List.Forall2

/-!
# Sources with the same tokens

Two ways to change a source that its tokens do not show.

* `tokenize_blanked`: a character that belongs to no token can be replaced by a space. What is
  illegal is found by looking ahead (a string or a comment that is not closed, a sign without a
  number), and the tokens before it have looked ahead, too; but a space there only cuts off what did
  not belong to them anyway (`Piece.Fits.blanked`).
* `tokenize_respaced`: the tokens are read back from their spellings.
-/

namespace IntervalSuite.Itl

open Text

/-! ## Texts with spaces put in -/

/-- The second text is the first one with spaces in the place of some characters, none of which
separates tokens. -/
def Blanked : List Char → List Char → Prop :=
  List.Forall₂ fun c d => d = c ∨ isSpace c = false ∧ d = ' '

namespace Blanked

variable {cs ds : List Char}

theorem refl (cs : List Char) : Blanked cs cs :=
  List.forall₂_same.mpr fun _ _ => .inl rfl

theorem append_left (u : List Char) (h : Blanked cs ds) : Blanked (u ++ cs) (u ++ ds) :=
  List.rel_append (refl u) h

/-- A newline stays a newline. -/
theorem stops_newline (h : Blanked cs ds) (hcs : Stops (· ≠ '\n') cs) : Stops (· ≠ '\n') ds := by
  cases h with
  | nil => exact hcs
  | @cons c d cs ds hcd _ =>
    have hc : c = '\n' := by simpa using hcs c rfl
    subst hc
    rcases hcd with rfl | ⟨hspace, -⟩
    · exact .cons (by decide) ds
    · cases hspace

/-- Up to the first space that has been put in, nothing changes. -/
theorem exists_cut (h : Blanked cs ds) :
    ds = cs ∨ ∃ u x v, cs = u ++ x ∧ ds = u ++ v ∧ Separated v := by
  induction h with
  | nil => exact .inl rfl
  | @cons c d cs ds hcd _ ih =>
    rcases hcd with rfl | ⟨-, rfl⟩
    · rcases ih with rfl | ⟨u, x, v, rfl, rfl, hv⟩
      · exact .inl rfl
      · exact .inr ⟨d :: u, x, v, rfl, rfl, hv⟩
    · refine .inr ⟨[], c :: cs, ' ' :: ds, rfl, rfl, ?_⟩
      intro a ha
      obtain rfl : ' ' = a := by simpa using ha
      decide

/-- A word without spaces has not come about. -/
theorem eq_of_no_space (h : Blanked cs ds) (hds : ' ' ∉ ds) : cs = ds := by
  induction h with
  | nil => rfl
  | @cons c d cs ds hcd _ ih =>
    rw [List.mem_cons, not_or] at hds
    rcases hcd with rfl | ⟨-, rfl⟩
    · rw [ih hds.2]
    · exact absurd rfl hds.1

theorem isInfix {word : List Char} (h : Blanked cs ds) (hword : ' ' ∉ word) (hin : word <:+: ds) :
    word <:+: cs := by
  obtain ⟨before, after, rfl⟩ := hin
  rw [List.append_assoc] at h
  have hrest := List.forall₂_drop_append cs before _ h
  have hsame := eq_of_no_space (List.forall₂_take_append _ word after hrest) hword
  rw [← hsame]
  exact (List.take_prefix _ _).isInfix.trans (List.drop_suffix _ cs).isInfix

end Blanked

/-! ## Pieces in front of a text with spaces put in -/

/-- The piece with a space in the place of an illegal character. -/
def Piece.blanked : Piece → Piece
  | illegal _ => blank ' '
  | p => p

/-- A comment that `#` starts is closed if it starts with `#*` and there is a `*#` behind that. -/
theorem exists_isClosedComment_iff {cs : List Char} :
    (∃ closed, IsClosedComment closed ∧ closed <+: '#' :: cs) ↔
      ∃ rest, cs = '*' :: rest ∧ ['*', '#'] <:+: rest := by
  constructor
  · rintro ⟨closed, ⟨body, rfl, hsuf, -⟩, more, hmore⟩
    obtain rfl : '*' :: (body ++ more) = cs := (List.cons.inj hmore).2
    exact ⟨body ++ more, rfl, hsuf.isInfix.trans (List.prefix_append body more).isInfix⟩
  · rintro ⟨rest, rfl, hin⟩
    cases ht : takeThrough? ['*', '#'] rest with
    | none => exact absurd hin (takeThrough?_eq_none ht)
    | some t =>
      obtain ⟨hsuf, hfirst, hpre⟩ := takeThrough?_spec (by simp) ht
      exact ⟨'#' :: '*' :: t, ⟨t, rfl, hsuf, hfirst⟩, by simpa using hpre⟩

/-- Spaces do not close a comment. -/
theorem Blanked.not_exists_isClosedComment {cs ds : List Char} (h : Blanked cs ds)
    (hcs : ¬ ∃ closed, IsClosedComment closed ∧ closed <+: '#' :: cs) :
    ¬ ∃ closed, IsClosedComment closed ∧ closed <+: '#' :: ds := by
  rw [exists_isClosedComment_iff] at hcs ⊢
  rintro ⟨rest, rfl, hin⟩
  cases h with
  | @cons c _ cs _ hcd hrest =>
    rcases hcd with rfl | ⟨-, hspace⟩
    · exact hcs ⟨cs, rfl, Blanked.isInfix hrest (by decide) hin⟩
    · cases hspace

/-- **One piece.** A piece fits in front of a text if it has fitted before spaces were put in. -/
theorem Piece.Fits.blanked {p : Piece} {rest rest' : List Char} (h : p.Fits rest)
    (hrest : Blanked rest rest') : p.blanked.Fits rest' := by
  cases p with
  | blank c => exact h
  | illegal c => simp [Piece.blanked, Piece.Fits]
  | dropped comment =>
    rcases h with hclosed | ⟨⟨body, rfl, hbody, hstops⟩, hnot⟩
    · exact .inl hclosed
    · exact .inr ⟨⟨body, rfl, hbody, hrest.stops_newline hstops⟩,
        (hrest.append_left body).not_exists_isClosedComment hnot⟩
  | token t =>
    obtain ⟨c, w, hspell, hscan⟩ := h
    refine ⟨c, w, hspell, ?_⟩
    rcases hrest.exists_cut with rfl | ⟨u, x, v, rfl, rfl, hv⟩
    · exact hscan
    · obtain ⟨w', rest, hcs, hcut⟩ := hscan.exists_cut
      obtain rfl : w = w' := (List.cons.inj (hspell.symm.trans hcut.spelling)).2
      obtain rfl : u ++ x = rest := List.append_cancel_left hcs
      exact hcut.scan u x v rfl hv fun _ _ hstops => hrest.stops_newline hstops

theorem Tiling.text_ne_nil {cs : List Char} {ps : List Piece} (h : Tiling cs ps) :
    ∀ p ∈ ps, p.text ≠ [] := by
  induction h with
  | nil => simp
  | cons hne _ _ ih => exact List.forall_mem_cons.mpr ⟨hne, ih⟩

theorem Tiling.not_isSpace {cs : List Char} {ps : List Piece} (h : Tiling cs ps) :
    ∀ c, .illegal c ∈ ps → isSpace c = false := by
  intro c hc
  induction h with
  | nil => cases hc
  | cons hne hp _ ih =>
    rcases List.mem_cons.mp hc with rfl | hc
    · rw [Bool.eq_false_iff, ne_eq, isSpace_iff]
      intro hspace
      exact hp.1 (by simp only [List.mem_cons, List.not_mem_nil, or_false] at hspace ⊢; tauto)
    · exact ih hc

theorem blanked_flatMap_text {ps : List Piece} (h : ∀ c, .illegal c ∈ ps → isSpace c = false) :
    Blanked (ps.flatMap Piece.text) ((ps.map Piece.blanked).flatMap Piece.text) := by
  induction ps with
  | nil => exact .nil
  | cons p ps ih =>
    have ih := ih fun c hc => h c (List.mem_cons_of_mem _ hc)
    cases p with
    | illegal c => exact .cons (.inr ⟨h c (by simp), rfl⟩) ih
    | blank | dropped | token => exact ih.append_left _

/-- **All pieces.** With spaces in the place of the illegal characters, the pieces stay the same. -/
theorem Tiling.blanked {cs : List Char} {ps : List Piece} (h : Tiling cs ps) :
    Tiling ((ps.map Piece.blanked).flatMap Piece.text) (ps.map Piece.blanked) := by
  induction h with
  | nil => exact .nil
  | @cons p rest ps hne hp hrest ih =>
    have hblanked := blanked_flatMap_text hrest.not_isSpace
    rw [hrest.flatMap_text] at hblanked
    refine .cons ?_ (hp.blanked hblanked) ih
    cases p with
    | illegal c => simp [Piece.blanked, Piece.text]
    | blank | dropped | token => exact hne

theorem lexemesFrom_blanked {ps : List Piece} (h : ∀ c, .illegal c ∈ ps → isSpace c = false)
    (l : Location) : lexemesFrom l (ps.map Piece.blanked) = lexemesFrom l ps := by
  induction ps generalizing l with
  | nil => rfl
  | cons p ps ih =>
    have ih := ih fun c hc => h c (List.mem_cons_of_mem _ hc)
    cases p with
    | illegal c =>
      have hc : c ≠ '\n' := by
        rintro rfl
        cases h '\n' (by simp)
      have hnext : l.next c = l.next ' ' := by simp [Location.next, hc]
      change lexemesFrom (l.next ' ') (ps.map Piece.blanked) = lexemesFrom (l.next c) ps
      rw [hnext, ih]
    | token t => exact congrArg (⟨t, l⟩ :: ·) (ih _)
    | blank | dropped => exact ih _

theorem diagnosticsFrom_eq_nil {ps : List Piece} (h : ∀ c, .illegal c ∉ ps) (l : Location) :
    diagnosticsFrom l ps = [] := by
  induction ps generalizing l with
  | nil => rfl
  | cons p ps ih =>
    have ih := ih fun c hc => h c (List.mem_cons_of_mem _ hc)
    cases p with
    | illegal c => exact absurd List.mem_cons_self (h c)
    | blank | dropped | token => exact ih _

/-! ## The locations of the illegal characters -/

/-- The text from a location on, with a space at each of the locations that are marked. -/
def blankAt (marked : List Location) : Location → List Char → List Char
  | _, [] => []
  | l, c :: cs => (if l ∈ marked then ' ' else c) :: blankAt marked (l.next c) cs

/-- The source with a space in the place of each character that is diagnosed. -/
def blanked (source : String) : String :=
  String.ofList (blankAt ((diagnose source).map Diagnostic.location) .start source.toList)

theorem blankAt_append (marked : List Location) (l : Location) (u v : List Char) :
    blankAt marked l (u ++ v) = blankAt marked l u ++ blankAt marked (l.after u) v := by
  induction u generalizing l with
  | nil => rfl
  | cons c u ih =>
    rw [List.cons_append, blankAt, blankAt, ih, List.cons_append]
    rfl

/-- A text without a marked location stays as it is. -/
theorem blankAt_eq_self {marked : List Location} {before text : List Char}
    (h : ∀ u v, text = u ++ v → v ≠ [] → Location.behind (before ++ u) ∉ marked) :
    blankAt marked (.behind before) text = text := by
  induction text generalizing before with
  | nil => rfl
  | cons c text ih =>
    have hhead : Location.behind before ∉ marked := by
      simpa using h [] (c :: text) rfl (by simp)
    rw [blankAt, if_neg hhead, ← Location.behind_append_singleton, ih]
    intro u v htext hv
    have hu := h (c :: u) v (by rw [htext]; rfl) hv
    simpa using hu

theorem isPrefix_of_mem_withPrefixes {before b : List Char} {p : Piece} {ps : List Piece}
    (h : (b, p) ∈ withPrefixes before ps) : before <+: b := by
  induction ps generalizing before with
  | nil => cases h
  | cons q ps ih =>
    rcases List.mem_cons.mp h with heq | h
    · obtain rfl := (Prod.mk.inj heq).1
      exact List.prefix_rfl
    · exact (List.prefix_append before q.text).trans (ih h)

/-- What is diagnosed behind a text has a location behind it. -/
theorem exists_of_mem_diagnosticsFrom {before : List Char} {ps : List Piece} {d : Diagnostic}
    (h : d ∈ diagnosticsFrom (.behind before) ps) :
    ∃ u, d.location = Location.behind (before ++ u) := by
  rw [diagnosticsFrom_behind, List.mem_filterMap] at h
  obtain ⟨⟨b, p⟩, hmem, hd⟩ := h
  obtain ⟨u, rfl⟩ := isPrefix_of_mem_withPrefixes hmem
  cases p with
  | illegal c =>
    obtain rfl : ⟨c, .behind (before ++ u)⟩ = d := by simpa [diagnosticOf?] using hd
    exact ⟨u, rfl⟩
  | blank | dropped | token => cases hd

theorem diagnosticsFrom_cons (before : List Char) (p : Piece) (ps : List Piece) :
    diagnosticsFrom (.behind before) (p :: ps) =
      (diagnosticOf? (before, p)).toList ++ diagnosticsFrom (.behind (before ++ p.text)) ps := by
  rw [diagnosticsFrom_behind, diagnosticsFrom_behind, withPrefixes, List.filterMap_cons]
  cases diagnosticOf? (before, p) with
  | none => rfl
  | some d => rfl

/-- Behind the text `before`, just the locations of the illegal characters are marked. -/
def MarksIllegal (marked : List Location) (before : List Char) (ps : List Piece) : Prop :=
  ∀ u, Location.behind (before ++ u) ∈ marked ↔
    Location.behind (before ++ u) ∈ (diagnosticsFrom (.behind before) ps).map Diagnostic.location

namespace MarksIllegal

variable {marked : List Location} {before : List Char} {p : Piece} {ps : List Piece}

theorem tail (h : MarksIllegal marked before (p :: ps)) (hp : p.text ≠ []) :
    MarksIllegal marked (before ++ p.text) ps := by
  intro u
  have hu := h (p.text ++ u)
  rw [diagnosticsFrom_cons, List.map_append, List.mem_append, ← List.append_assoc] at hu
  rw [hu, or_iff_right]
  -- The location of the first piece itself lies before all that follows it.
  intro hmem
  obtain ⟨d, hd, hlocation⟩ := List.mem_map.mp hmem
  have hd : d.location = .behind before := by
    cases p with
    | illegal c =>
      obtain rfl : d = ⟨c, .behind before⟩ := by simpa [diagnosticOf?] using hd
      rfl
    | blank | dropped | token => cases hd
  rw [hd, List.append_assoc] at hlocation
  exact Location.behind_append_ne (by simp [hp]) before hlocation.symm

/-- Of the first piece, just an illegal character becomes a space. -/
theorem head (h : MarksIllegal marked before (p :: ps)) :
    blankAt marked (.behind before) p.text = p.blanked.text := by
  have hhere := h []
  rw [List.append_nil] at hhere
  cases p with
  | illegal c =>
    have hmarked : Location.behind before ∈ marked :=
      hhere.mpr (by simp [diagnosticsFrom_cons, diagnosticOf?])
    simp [Piece.text, Piece.blanked, blankAt, hmarked]
  | blank | dropped | token =>
    refine blankAt_eq_self fun u v htext hv hmarked => ?_
    obtain ⟨d, hd, hlocation⟩ := List.mem_map.mp ((h u).mp hmarked)
    rw [diagnosticsFrom_cons] at hd
    obtain ⟨u', hu'⟩ := exists_of_mem_diagnosticsFrom hd
    rw [htext, hlocation, ← List.append_assoc, List.append_assoc] at hu'
    exact Location.behind_append_ne (by simp [hv]) (before ++ u) hu'.symm

end MarksIllegal

/-- With the locations of the illegal characters marked, just these characters become spaces. -/
theorem blankAt_flatMap_text {marked : List Location} {before : List Char} {ps : List Piece}
    (h : MarksIllegal marked before ps) (hne : ∀ p ∈ ps, p.text ≠ []) :
    blankAt marked (.behind before) (ps.flatMap Piece.text) =
      (ps.map Piece.blanked).flatMap Piece.text := by
  induction ps generalizing before with
  | nil => rfl
  | cons p ps ih =>
    obtain ⟨hp, hps⟩ := List.forall_mem_cons.mp hne
    rw [List.flatMap_cons, blankAt_append, Location.after_behind, h.head, ih (h.tail hp) hps]
    rfl

theorem pieces_blanked (source : String) :
    pieces (blanked source).toList = (pieces source.toList).map Piece.blanked := by
  have htiling := tiling_pieces source.toList
  have hstart : Location.start = .behind [] := rfl
  have hmarks : MarksIllegal ((diagnose source).map Diagnostic.location) []
      (pieces source.toList) := by
    intro u
    rw [diagnose, hstart]
  have htext := blankAt_flatMap_text hmarks htiling.text_ne_nil
  rw [htiling.flatMap_text] at htext
  rw [blanked, String.toList_ofList, hstart, htext]
  exact (tiling_iff.mp htiling.blanked).symm

/-- **Skipping is blanking.** With a space in the place of each character that is diagnosed, a source
has the same tokens at the same locations, and nothing is diagnosed. -/
theorem tokenize_blanked (source : String) :
    tokenize (blanked source) = tokenize source ∧ diagnose (blanked source) = [] := by
  have hspace := (tiling_pieces source.toList).not_isSpace
  constructor
  · rw [tokenize, pieces_blanked, lexemesFrom_blanked hspace, tokenize]
  · rw [diagnose, pieces_blanked]
    refine diagnosticsFrom_eq_nil (fun c hc => ?_) _
    obtain ⟨p, -, hp⟩ := List.mem_map.mp hc
    cases p <;> cases hp

example : blanked "+1e+@ /* \"a" = "+1e       a" := by cbv

/-! ## Tokens and their spellings -/

/-- The spellings of tokens with a gap behind each of them. -/
def respaced (ts : List Token) : String :=
  String.ofList (ts.flatMap fun t => t.spelling.toList ++ [t.gap])

theorem pieces_respaced {ts : List Token} (h : AllSpelled ts) :
    pieces (respaced ts).toList = ts.flatMap fun t => [.token t, .blank t.gap] := by
  rw [respaced, String.toList_ofList]
  induction ts with
  | nil => simp [pieces]
  | cons t ts ih =>
    obtain ⟨ht, hts⟩ := allSpelled_cons.mp h
    rw [List.flatMap_cons, List.append_assoc, List.singleton_append, ht.pieces_gap, ih hts]
    rfl

/-- **Tokens survive their spelling.** The tokens of a source end with the end of file, which stands
nowhere else. Those before it, each with a space behind it, or a newline behind a line comment, are
read back, and nothing is diagnosed. -/
theorem tokenize_respaced (source : String) :
    ∃ ts, (tokenize source).map Lexeme.token = ts ++ [.endOfFile] ∧ .endOfFile ∉ ts ∧
      (tokenize (respaced ts)).map Lexeme.token = ts ++ [.endOfFile] ∧
      diagnose (respaced ts) = [] := by
  have hspelled := allSpelled_tokenize source
  rw [List.map_dropLast, tokenize, lexemesFrom_tokens, List.dropLast_concat] at hspelled
  generalize hts : (pieces source.toList).filterMap Piece.token? = ts at hspelled
  refine ⟨ts, by rw [tokenize, lexemesFrom_tokens, hts], fun hend => ?_, ?_, ?_⟩
  · exact absurd rfl (hspelled _ hend).ne_nil
  · rw [tokenize, lexemesFrom_tokens, pieces_respaced hspelled, List.filterMap_flatMap]
    exact congrArg (· ++ [.endOfFile]) (List.flatMap_singleton' ts)
  · rw [diagnose, pieces_respaced hspelled]
    refine diagnosticsFrom_eq_nil (fun c hc => ?_) _
    obtain ⟨t, -, ht⟩ := List.mem_flatMap.mp hc
    simp at ht

end IntervalSuite.Itl
