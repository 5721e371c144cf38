import IntervalSuite.Proofs.Itl.Scanning

/-!
# The pieces of a source tile it

`Tiling cs ps` says what it means that the pieces `ps` make up the text `cs`: they follow each other
without a gap, none is empty, and each is what its kind says in front of the text behind it
(`Piece.Fits`). A location is said by counting in the text before it (`Location.behind`), not by
walking over that text.

* `tiling_iff`: every text has exactly one tiling, and the lexer finds it.
* `tokenize_tiles`: the tokens and the diagnostics are the pieces of these kinds in their order, each
  at its location, and the end of file stands behind the whole text.
-/

namespace IntervalSuite.Itl

open Text

/-! ## Locations -/

/-- The location behind a text: one line more than the text has newlines, and one column more than
it has characters behind the last of them. -/
def Location.behind (before : List Char) : Location :=
  ⟨1 + before.count '\n', 1 + (before.reverse.takeWhile (· ≠ '\n')).length⟩

theorem Location.behind_append_singleton (before : List Char) (c : Char) :
    Location.behind (before ++ [c]) = (Location.behind before).next c := by
  unfold Location.behind Location.next
  by_cases hc : c = '\n'
  · subst hc
    simp [Nat.add_assoc]
  · simp [hc, Nat.add_comm]

/-- Walking over a text leads to the location that counting in it gives. -/
theorem Location.after_behind (before text : List Char) :
    (Location.behind before).after text = Location.behind (before ++ text) := by
  induction text generalizing before with
  | nil => simp [Location.after]
  | cons c text ih =>
    show ((Location.behind before).next c).after text = _
    rw [← Location.behind_append_singleton, ih]
    simp

/-- Two places in one text have different locations. -/
theorem Location.behind_append_ne {text : List Char} (h : text ≠ []) (before : List Char) :
    Location.behind (before ++ text) ≠ Location.behind before := by
  have hpos := List.length_pos_iff.mpr h
  unfold Location.behind
  rw [ne_eq, Location.mk.injEq]
  rintro ⟨hline, hcolumn⟩
  by_cases hnewline : '\n' ∈ text
  · have hcount := List.count_pos_iff.mpr hnewline
    rw [List.count_append] at hline
    omega
  · have hrun : ∀ c ∈ text.reverse, decide (c ≠ '\n') = true := by
      intro c hc
      refine decide_eq_true ?_
      rintro rfl
      exact hnewline (List.mem_reverse.mp hc)
    rw [List.reverse_append, List.takeWhile_append_of_pos hrun, List.length_append,
      List.length_reverse] at hcolumn
    omega

/-! ## Pieces -/

/-- The comment is `#* … *#` and ends with the first `*#` behind its opening. -/
def IsClosedComment (comment : List Char) : Prop :=
  ∃ body, comment = '#' :: '*' :: body ∧ ['*', '#'] <:+ body ∧ ¬ ['*', '#'] <:+: body.dropLast

/-- The comment starts with `#` and ends before the next newline, or with the text. -/
def IsLineRest (comment rest : List Char) : Prop :=
  ∃ body, comment = '#' :: body ∧ '\n' ∉ body ∧ Stops (· ≠ '\n') rest

/-- In front of `rest`, the piece is what its kind says. A comment goes on to the end of the line
only if it is not closed, and a character is illegal only if no token starts with it. -/
def Piece.Fits : Piece → List Char → Prop
  | blank c, _ => c ∈ [' ', '\t', '\r', '\n']
  | dropped comment, rest =>
    IsClosedComment comment ∨
      IsLineRest comment rest ∧ ¬ ∃ closed, IsClosedComment closed ∧ closed <+: comment ++ rest
  | token t, rest => ∃ c w, t.spelling.toList = c :: w ∧ Scan c (w ++ rest) t
  | illegal c, rest => c ∉ [' ', '\t', '\r', '\n', '#'] ∧ ∀ t, ¬ Scan c rest t

/-- The pieces make up the text. -/
inductive Tiling : List Char → List Piece → Prop where
  | nil : Tiling [] []
  | cons {p : Piece} {rest : List Char} {ps : List Piece} (hne : p.text ≠ []) (hp : p.Fits rest)
      (h : Tiling rest ps) : Tiling (p.text ++ rest) (p :: ps)

/-! ## Comments that are dropped -/

theorem isClosedComment_iff {comment : List Char} :
    IsClosedComment comment ↔ ∃ body, comment = '#' :: '*' :: body ∧
      Text.takeThrough? ['*', '#'] body = some body := by
  simp [IsClosedComment, takeThrough?_eq_some_iff]

/-- What `#` starts is a closed comment if there is one, and else the rest of the line. -/
theorem hashComment_cases (cs : List Char) :
    (IsClosedComment (hashComment cs) ∧ hashComment cs <+: '#' :: cs) ∨
      (¬ ∃ closed, IsClosedComment closed ∧ closed <+: '#' :: cs) ∧
        hashComment cs = '#' :: cs.takeWhile (· ≠ '\n') := by
  unfold hashComment
  simp only []
  split
  · rename_i rest
    split
    · rename_i t ht
      obtain ⟨hsuf, hfirst, hpre⟩ := (takeThrough?_eq_some_iff (by simp)).mp ht
      exact .inl ⟨⟨t, rfl, hsuf, hfirst⟩, by simpa using hpre⟩
    · rename_i hnone
      refine .inr ⟨?_, rfl⟩
      rintro ⟨closed, ⟨body, rfl, hsuf, -⟩, hpre⟩
      have hbody : body <+: rest := by simpa using hpre
      exact takeThrough?_eq_none hnone (hsuf.isInfix.trans hbody.isInfix)
  · rename_i hstar
    refine .inr ⟨?_, rfl⟩
    rintro ⟨closed, ⟨body, rfl, -⟩, more, hmore⟩
    exact hstar (body ++ more) (List.cons.inj hmore).2.symm

theorem hashComment_fits (cs : List Char) :
    ∃ rest, '#' :: cs = hashComment cs ++ rest ∧ (Piece.dropped (hashComment cs)).Fits rest := by
  rcases hashComment_cases cs with ⟨hclosed, rest, hrest⟩ | ⟨hnot, hline⟩
  · exact ⟨rest, hrest.symm, .inl hclosed⟩
  · obtain ⟨body, rest, rfl, hb, hr⟩ := exists_run (· ≠ '\n') cs
    rw [takeWhile_run hb hr] at hline
    rw [hline]
    refine ⟨rest, rfl, .inr ⟨⟨body, rfl, fun hin => ?_, hr⟩, hnot⟩⟩
    simpa using hb _ hin

theorem hashComment_eq_of_fits {comment rest cs : List Char} (h : (Piece.dropped comment).Fits rest)
    (hcs : comment ++ rest = '#' :: cs) : hashComment cs = comment := by
  rcases h with hclosed | ⟨⟨body, rfl, hb, hr⟩, hnot⟩
  · obtain ⟨body, rfl, hbody⟩ := isClosedComment_iff.mp hclosed
    obtain rfl : '*' :: (body ++ rest) = cs := (List.cons.inj hcs).2
    simp [hashComment, takeThrough?_append (by simp) hbody rest]
  · obtain rfl : body ++ rest = cs := (List.cons.inj hcs).2
    have hbody : ∀ c ∈ body, decide (c ≠ '\n') = true := by
      intro c hc
      exact decide_eq_true fun h => hb (h ▸ hc)
    rcases hashComment_cases (body ++ rest) with h | ⟨-, hline⟩
    · exact absurd ⟨_, h⟩ hnot
    · rw [hline, takeWhile_run hbody hr]

/-! ## The lexer finds the tiling -/

theorem Scan.not_blank {c : Char} {cs : List Char} {t : Token} (h : Scan c cs t) :
    isSpace c = false ∧ c ≠ '#' := by
  cases h with
  | lineComment | blockComment | string => decide
  | signedNumber hc | signedInfinity hc => rcases hc with rfl | rfl <;> decide
  | number hn =>
    by_cases hdot : c = '.'
    · subst hdot
      decide
    · rw [startsNumber_cons hdot] at hn
      constructor
      · rw [Bool.eq_false_iff]
        intro hs
        simp only [isSpace, Bool.or_eq_true, beq_iff_eq] at hs
        rcases hs with ((rfl | rfl) | rfl) | rfl <;> revert hn <;> decide
      · rintro rfl
        revert hn
        decide
  | word cs hc =>
    constructor
    · rw [Bool.eq_false_iff]
      intro hs
      simp only [isSpace, Bool.or_eq_true, beq_iff_eq] at hs
      rcases hs with ((rfl | rfl) | rfl) | rfl <;> revert hc <;> decide
    · rintro rfl
      revert hc
      decide
  | @punct c cs p hp =>
    rw [← Punct.char_of_ofChar? hp]
    cases p <;> decide

theorem isSpace_iff {c : Char} : isSpace c = true ↔ c ∈ [' ', '\t', '\r', '\n'] := by
  simp [isSpace, or_assoc]

/-- One step of the lexer: the first piece stands at the start of the text and fits there. -/
theorem leadingPiece_fits (c : Char) (cs : List Char) :
    (leadingPiece c cs).text ≠ [] ∧
      ∃ rest, c :: cs = (leadingPiece c cs).text ++ rest ∧ (leadingPiece c cs).Fits rest := by
  unfold leadingPiece
  split
  · rename_i hs
    exact ⟨by simp [Piece.text], cs, rfl, isSpace_iff.mp hs⟩
  · rename_i hs
    split
    · rename_i hc
      subst hc
      obtain ⟨rest, hrest, hfits⟩ := hashComment_fits cs
      refine ⟨?_, rest, hrest, hfits⟩
      rcases hashComment_cases cs with ⟨⟨body, hbody, -⟩, -⟩ | ⟨-, hline⟩
      · simp [Piece.text, hbody]
      · simp [Piece.text, hline]
    · rename_i hhash
      split
      · rename_i t ht
        have hscan := leadingToken?_eq_some_iff.mp ht
        obtain ⟨w, rest, hspell, rfl, -⟩ := hscan.exists_rest
        exact ⟨by simp [Piece.text, hspell], rest, by simp [Piece.text, hspell], c, w, hspell,
          hscan⟩
      · rename_i hnone
        refine ⟨by simp [Piece.text], cs, rfl, ?_, fun t ht => ?_⟩
        · simp only [isSpace_iff] at hs
          simp only [List.mem_cons, List.not_mem_nil, or_false, not_or] at hs ⊢
          exact ⟨hs.1, hs.2.1, hs.2.2.1, hs.2.2.2, hhash⟩
        · rw [leadingToken?_eq_some_iff.mpr ht] at hnone
          cases hnone

/-- A piece that fits at the start of a text is the one that the lexer finds. -/
theorem leadingPiece_eq_of_fits {p : Piece} {c : Char} {cs rest : List Char} (h : p.Fits rest)
    (hcs : p.text ++ rest = c :: cs) : leadingPiece c cs = p := by
  unfold leadingPiece
  cases p with
  | blank d =>
    obtain ⟨rfl, rfl⟩ := List.cons.inj hcs
    rw [if_pos (isSpace_iff.mpr h)]
  | dropped comment =>
    obtain rfl : c = '#' := by
      rcases h with ⟨body, rfl, -⟩ | ⟨⟨body, rfl, -⟩, -⟩
      · exact (List.cons.inj hcs).1.symm
      · exact (List.cons.inj hcs).1.symm
    rw [if_neg (by decide), if_pos rfl, hashComment_eq_of_fits h hcs]
  | token t =>
    obtain ⟨d, w, hspell, hscan⟩ := h
    simp only [Piece.text, hspell, List.cons_append, List.cons.injEq] at hcs
    obtain ⟨rfl, rfl⟩ := hcs
    have hblank := hscan.not_blank
    rw [if_neg (by simp [hblank.1]), if_neg hblank.2, leadingToken?_eq_some_iff.mpr hscan]
  | illegal d =>
    obtain ⟨rfl, rfl⟩ : d = c ∧ rest = cs := by simpa [Piece.text] using hcs
    obtain ⟨hnot, hscan⟩ := h
    have hs : isSpace d ≠ true := fun hs => hnot (by have := isSpace_iff.mp hs; grind)
    have hhash : d ≠ '#' := fun hh => hnot (by simp [hh])
    have hnone : leadingToken? d rest = none := by
      rw [Option.eq_none_iff_forall_ne_some]
      exact fun t ht => hscan t (leadingToken?_eq_some_iff.mp ht)
    rw [if_neg hs, if_neg hhash, hnone]

/-- A piece that fits is cut off, and the text behind it is cut on its own. -/
theorem pieces_append {p : Piece} {rest : List Char} (hne : p.text ≠ []) (h : p.Fits rest) :
    pieces (p.text ++ rest) = p :: pieces rest := by
  cases ht : p.text with
  | nil => exact absurd ht hne
  | cons c cs =>
    have hlead : leadingPiece c (cs ++ rest) = p := leadingPiece_eq_of_fits h (by rw [ht]; rfl)
    rw [List.cons_append, pieces, hlead, ht]
    simp

theorem tiling_pieces (cs : List Char) : Tiling cs (pieces cs) := by
  fun_induction pieces cs with
  | case1 => exact .nil
  | case2 c cs piece ih =>
    obtain ⟨hne, rest, hrest, hfits⟩ := leadingPiece_fits c cs
    have hdrop : cs.drop (piece.text.length - 1) = rest := by
      have hpos := List.length_pos_iff.mpr hne
      calc cs.drop (piece.text.length - 1)
          = (c :: cs).drop piece.text.length := by
            rw [show piece.text.length = piece.text.length - 1 + 1 by simp only [piece]; omega]
            rfl
        _ = rest := by rw [hrest, List.drop_left]
    rw [hdrop] at ih ⊢
    rw [hrest]
    exact .cons hne hfits ih

/-- Every text has exactly one tiling, and the lexer finds it. -/
theorem tiling_iff {cs : List Char} {ps : List Piece} : Tiling cs ps ↔ ps = pieces cs := by
  constructor
  · intro h
    induction h with
    | nil => simp [pieces]
    | cons hne hp _ ih => rw [pieces_append hne hp, ih]
  · rintro rfl
    exact tiling_pieces cs

theorem Tiling.flatMap_text {cs : List Char} {ps : List Piece} (h : Tiling cs ps) :
    ps.flatMap Piece.text = cs := by
  induction h with
  | nil => rfl
  | cons _ _ _ ih => rw [List.flatMap_cons, ih]

/-! ## Tokens, diagnostics and their locations -/

/-- Each piece with the text that stands before it, where `before` stands before all of them. -/
def withPrefixes (before : List Char) : List Piece → List (List Char × Piece)
  | [] => []
  | p :: ps => (before, p) :: withPrefixes (before ++ p.text) ps

/-- The token that a piece is, at the location behind the text before it. -/
def lexemeOf? : List Char × Piece → Option Lexeme
  | (before, .token t) => some ⟨t, .behind before⟩
  | _ => none

/-- The illegal character that a piece is, at the location behind the text before it. -/
def diagnosticOf? : List Char × Piece → Option Diagnostic
  | (before, .illegal c) => some ⟨c, .behind before⟩
  | _ => none

theorem lexemesFrom_behind (before : List Char) (ps : List Piece) :
    lexemesFrom (.behind before) ps = (withPrefixes before ps).filterMap lexemeOf? ++
      [⟨.endOfFile, .behind (before ++ ps.flatMap Piece.text)⟩] := by
  induction ps generalizing before with
  | nil => simp [lexemesFrom, withPrefixes]
  | cons p ps ih =>
    have hstep := ih (before ++ p.text)
    rw [← Location.after_behind, List.append_assoc] at hstep
    cases p with
    | token t => exact congrArg (⟨t, .behind before⟩ :: ·) hstep
    | blank | dropped | illegal => exact hstep

theorem tokenize_eq (source : String) :
    tokenize source = (withPrefixes [] (pieces source.toList)).filterMap lexemeOf? ++
      [⟨.endOfFile, .behind source.toList⟩] := by
  have h := lexemesFrom_behind [] (pieces source.toList)
  rwa [(tiling_pieces source.toList).flatMap_text, List.nil_append] at h

theorem diagnosticsFrom_behind (before : List Char) (ps : List Piece) :
    diagnosticsFrom (.behind before) ps = (withPrefixes before ps).filterMap diagnosticOf? := by
  induction ps generalizing before with
  | nil => rfl
  | cons p ps ih =>
    have hstep := ih (before ++ p.text)
    rw [← Location.after_behind] at hstep
    cases p with
    | illegal c => exact congrArg (⟨c, .behind before⟩ :: ·) hstep
    | blank | dropped | token => exact hstep

theorem Scan.ne_endOfFile {c : Char} {cs : List Char} {t : Token} (h : Scan c cs t) :
    t ≠ .endOfFile := by
  obtain ⟨w, rest, hspell, -⟩ := h.exists_rest
  rintro rfl
  cases hspell

/-- A token in a text was found where its spelling stands, in front of the rest of the text. -/
theorem Tiling.exists_scan {cs : List Char} {ps : List Piece} (h : Tiling cs ps) {before : List Char}
    {l : Lexeme} (hl : l ∈ (withPrefixes before ps).filterMap lexemeOf?) :
    ∃ u c w rest, cs = u ++ (c :: w ++ rest) ∧ l.token.spelling.toList = c :: w ∧
      l.location = .behind (before ++ u) ∧ Scan c (w ++ rest) l.token := by
  induction h generalizing before with
  | nil => cases hl
  | @cons p rest ps hne hp hrest ih =>
    have hstep : l ∈ (withPrefixes (before ++ p.text) ps).filterMap lexemeOf? →
        ∃ u c w rest', p.text ++ rest = u ++ (c :: w ++ rest') ∧ l.token.spelling.toList = c :: w ∧
          l.location = .behind (before ++ u) ∧ Scan c (w ++ rest') l.token := by
      intro hl
      obtain ⟨u, c, w, rest', rfl, hspell, hloc, hscan⟩ := ih hl
      exact ⟨p.text ++ u, c, w, rest', by simp, hspell, by rw [hloc, List.append_assoc], hscan⟩
    cases p with
    | token t =>
      obtain ⟨c, w, hspell, hscan⟩ := hp
      rcases List.mem_cons.mp hl with rfl | hl
      · exact ⟨[], c, w, rest, by simp [Piece.text, hspell], hspell, by simp, hscan⟩
      · exact hstep hl
    | blank | dropped | illegal => exact hstep hl

theorem Tiling.ne_endOfFile {cs : List Char} {ps : List Piece} (h : Tiling cs ps)
    (before : List Char) :
    ∀ l ∈ (withPrefixes before ps).filterMap lexemeOf?, l.token ≠ .endOfFile := by
  intro l hl
  obtain ⟨u, c, w, rest, -, -, -, hscan⟩ := h.exists_scan hl
  exact hscan.ne_endOfFile

/-- **The lexer tiles its input.** A source has exactly one tiling. Its tokens up to the end of file
and its diagnostics are the pieces of these kinds in their order, located by counting in the text
before them; the end of file comes last and only there, and stands behind the whole text. -/
theorem tokenize_tiles (source : String) :
    ∃ ps, Tiling source.toList ps ∧ (∀ qs, Tiling source.toList qs → qs = ps) ∧
      tokenize source = (withPrefixes [] ps).filterMap lexemeOf? ++
        [⟨.endOfFile, .behind source.toList⟩] ∧
      (∀ l ∈ (withPrefixes [] ps).filterMap lexemeOf?, l.token ≠ .endOfFile) ∧
      diagnose source = (withPrefixes [] ps).filterMap diagnosticOf? := by
  have h := tiling_pieces source.toList
  refine ⟨pieces source.toList, h, fun qs hqs => tiling_iff.mp hqs, ?_, h.ne_endOfFile [],
    diagnosticsFrom_behind [] _⟩
  have hlex := lexemesFrom_behind [] (pieces source.toList)
  rwa [h.flatMap_text, List.nil_append] at hlex

end IntervalSuite.Itl
