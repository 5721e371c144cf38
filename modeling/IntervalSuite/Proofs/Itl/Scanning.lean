import IntervalSuite.Proofs.Itl.Munch
import IntervalSuite.Proofs.Text.Search

/-!
# One token at the start of a text

`Scan c cs t` lists the ways in which a token `t` can stand at the start of `c :: cs`, one for each
scanner, and `leadingToken?_eq_some_iff` says that the lexer finds exactly these.

* `Scan.exists_cut`: the text starts with the spelling of the token, and the same token is found if
  what follows is cut off somewhere by a blank with anything behind it, or by the end of the text. A
  line comment needs a newline or the end right behind it. There is one lemma for each scanner.
* `spelling_wordToken`: a word keeps its text, be it reserved or not.
-/

namespace IntervalSuite.Itl

open Text

/-! ## Searching for the end of a string -/

theorem stringTail?_cons {c : Char} (hb : c ≠ '\\') (hq : c ≠ '"') (hn : c ≠ '\n')
    (cs : List Char) : stringTail? (c :: cs) = (stringTail? cs).map (c :: ·) := by
  rw [stringTail?.eq_def]
  split <;> simp_all

theorem stringTail?_spec {cs t : List Char} (h : stringTail? cs = some t) :
    t <+: cs ∧ ∀ rest, stringTail? (t ++ rest) = some t := by
  fun_induction stringTail? cs generalizing t with
  | case1 => cases h
  | case2 => cases h
  | case3 c cs ih =>
    rw [Option.map_eq_some_iff] at h
    obtain ⟨u, hu, rfl⟩ := h
    obtain ⟨hpre, hstable⟩ := ih hu
    refine ⟨by simpa using hpre, fun rest => ?_⟩
    rw [List.cons_append, List.cons_append, stringTail?, hstable rest]
    rfl
  | case4 cs =>
    cases h
    exact ⟨by simp, fun rest => by simp [stringTail?]⟩
  | case5 => cases h
  | case6 c cs hend hescape hquote hnewline ih =>
    rw [Option.map_eq_some_iff] at h
    obtain ⟨u, hu, rfl⟩ := h
    obtain ⟨hpre, hstable⟩ := ih hu
    refine ⟨by simpa using hpre, fun rest => ?_⟩
    have hb : c ≠ '\\' := by
      cases cs with
      | nil => exact fun hc => hend hc rfl
      | cons d cs => exact fun hc => hescape d cs hc rfl
    rw [List.cons_append, stringTail?_cons hb hquote hnewline, hstable rest]
    rfl

/-! ## Words -/

theorem Decoration.name_of_ofName? {word : String} {d : Decoration}
    (h : Decoration.ofName? word = some d) : d.name = word := by
  simpa using List.find?_some h

theorem Overlap.name_of_ofName? {word : String} {o : Overlap}
    (h : Overlap.ofName? word = some o) : o.name = word := by
  simpa using List.find?_some h

theorem spelling_of_keyword? {word : String} {t : Token} (h : keyword? word = some t) :
    t.spelling = word := by
  unfold keyword? at h
  split at h
  · cases h
    exact Eq.symm ‹_›
  · split at h
    · cases h
      exact Eq.symm ‹_›
    · split at h
      · cases h
        exact Eq.symm ‹_›
      · split at h
        · rename_i hd
          cases h
          exact Decoration.name_of_ofName? hd
        · rw [Option.map_eq_some_iff] at h
          obtain ⟨o, ho, rfl⟩ := h
          exact Overlap.name_of_ofName? ho

/-- The token of a word is spelled as the word. -/
theorem spelling_wordToken (word : String) : (wordToken word).spelling = word := by
  unfold wordToken
  split
  · exact spelling_of_keyword? ‹_›
  · split
    · rfl
    · split <;> rfl

theorem isWordPart_of_isWordStart {c : Char} (h : isWordStart c) : isWordPart c := by
  unfold isWordStart at h
  simp [isWordPart, Char.isAlphanum, h]

theorem leadingWord_cons {c : Char} (h : isWordStart c) (cs : List Char) :
    leadingWord (c :: cs) = c :: leadingWord cs := by
  unfold leadingWord
  rw [List.takeWhile_cons, if_pos (isWordPart_of_isWordStart h)]

/-! ## The ways to find a token -/

/-- A token stands at the start of a text. -/
inductive Scan : Char → List Char → Token → Prop where
  | lineComment (cs : List Char) :
      Scan '/' ('/' :: cs)
        (.comment .line (String.ofList (('/' :: '/' :: cs).takeWhile (· ≠ '\n'))))
  | blockComment {cs t : List Char} (h : Text.takeThrough? ['*', '/'] cs = some t) :
      Scan '/' ('*' :: cs) (.comment .block (String.ofList ('/' :: '*' :: t)))
  | string {cs t : List Char} (h : stringTail? cs = some t) :
      Scan '"' cs (.string (String.ofList ('"' :: t)))
  | signedNumber {c : Char} {cs : List Char} (hc : c = '+' ∨ c = '-')
      (h : startsNumber cs = true) : Scan c cs (numberToken [c] cs)
  | signedInfinity {c : Char} {cs : List Char} (hc : c = '+' ∨ c = '-')
      (hi : cs.head? = some 'i') (h : (suffixChars? (leadingWord cs) ['i', 'n', 'f']).isSome) :
      Scan c cs (.infinity (String.ofList (c :: leadingWord cs)))
  | number {c : Char} {cs : List Char} (h : startsNumber (c :: cs) = true) :
      Scan c cs (numberToken [] (c :: cs))
  | word {c : Char} (cs : List Char) (h : isWordStart c) :
      Scan c cs (wordToken (String.ofList (leadingWord (c :: cs))))
  | punct {c : Char} {cs : List Char} {p : Punct} (hp : Punct.ofChar? c = some p)
      (h : startsNumber (c :: cs) = false) : Scan c cs (.punct p)

/-- A character that starts a number starts no other token. -/
theorem not_special_of_startsNumber {c : Char} {cs : List Char}
    (h : startsNumber (c :: cs) = true) :
    c ≠ '/' ∧ c ≠ '"' ∧ c ≠ '+' ∧ c ≠ '-' := by
  by_cases hdot : c = '.'
  · subst hdot
    decide
  · rw [startsNumber_cons hdot] at h
    refine ⟨?_, ?_, ?_, ?_⟩ <;> rintro rfl <;> simp [Char.isDigit] at h

theorem not_isDigit_of_isAlpha {c : Char} (h : c.isAlpha) : c.isDigit = false := by
  have halpha : (decide (65 ≤ c.val ∧ c.val ≤ 90) ||
      decide (97 ≤ c.val) && decide (c.val ≤ 122)) = true := h
  have hdigit : c.isDigit = (decide (48 ≤ c.val) && decide (c.val ≤ 57)) := rfl
  simp only [Bool.or_eq_true, Bool.and_eq_true, decide_eq_true_eq, UInt32.le_iff_toNat_le] at halpha
  simp only [hdigit, Bool.and_eq_false_iff, decide_eq_false_iff_not, UInt32.le_iff_toNat_le]
  simp only [UInt32.reduceToNat] at halpha ⊢
  omega

theorem not_special_of_isWordStart {c : Char} (h : isWordStart c) :
    c ≠ '/' ∧ c ≠ '"' ∧ c ≠ '+' ∧ c ≠ '-' ∧ c ≠ '.' ∧ c.isDigit = false := by
  refine ⟨?_, ?_, ?_, ?_, ?_, not_isDigit_of_isAlpha h⟩ <;> rintro rfl <;> revert h <;> decide

theorem Punct.char_of_ofChar? {c : Char} {p : Punct} (h : Punct.ofChar? c = some p) :
    p.char = c := by
  simpa using List.find?_some h

theorem not_special_of_ofChar? {c : Char} {p : Punct} (h : Punct.ofChar? c = some p) :
    c ≠ '/' ∧ c ≠ '"' ∧ c ≠ '+' ∧ c ≠ '-' ∧ isWordStart c = false ∧ c.isDigit = false := by
  rw [← Punct.char_of_ofChar? h]
  cases p <;> decide

theorem scan_of_leadingToken? {c : Char} {cs : List Char} {t : Token}
    (h : leadingToken? c cs = some t) : Scan c cs t := by
  unfold leadingToken? at h
  split at h
  · rename_i hc
    subst hc
    split at h
    · cases h
      exact .lineComment _
    · rw [Option.map_eq_some_iff] at h
      obtain ⟨t, ht, rfl⟩ := h
      exact .blockComment ht
    · cases h
  · split at h
    · rename_i hc
      subst hc
      rw [Option.map_eq_some_iff] at h
      obtain ⟨t, ht, rfl⟩ := h
      exact .string ht
    · split at h
      · rename_i hc
        split at h
        · cases h
          exact .signedNumber hc ‹_›
        · split at h
          · rename_i hi
            cases h
            exact .signedInfinity hc hi.1 hi.2
          · cases h
      · split at h
        · cases h
          exact .number ‹_›
        · rename_i hn
          split at h
          · cases h
            exact .word _ ‹_›
          · rw [Option.map_eq_some_iff] at h
            obtain ⟨p, hp, rfl⟩ := h
            exact .punct hp (by simpa using hn)

theorem Scan.leadingToken?_eq {c : Char} {cs : List Char} {t : Token} (h : Scan c cs t) :
    leadingToken? c cs = some t := by
  cases h with
  | lineComment cs => rfl
  | blockComment h => simp [leadingToken?, h]
  | string h => simp [leadingToken?, h]
  | signedNumber hc h => rcases hc with rfl | rfl <;> simp [leadingToken?, h]
  | signedInfinity hc hi h =>
    have hn : startsNumber cs = false := by
      cases cs with
      | nil => rfl
      | cons d cs =>
        obtain rfl : d = 'i' := by simpa using hi
        rfl
    rcases hc with rfl | rfl <;> simp [leadingToken?, hn, hi, h]
  | number h =>
    obtain ⟨h1, h2, h3, h4⟩ := not_special_of_startsNumber h
    simp [leadingToken?, h1, h2, h3, h4, h]
  | word cs hw =>
    obtain ⟨h1, h2, h3, h4, h5, h6⟩ := not_special_of_isWordStart hw
    simp [leadingToken?, h1, h2, h3, h4, startsNumber_cons h5, h6, hw]
  | punct hp h =>
    obtain ⟨h1, h2, h3, h4, h5, -⟩ := not_special_of_ofChar? hp
    simp [leadingToken?, h1, h2, h3, h4, h5, h, hp]

/-- **One token.** The lexer finds a token at the start of a text exactly in the ways of `Scan`. -/
theorem leadingToken?_eq_some_iff {c : Char} {cs : List Char} {t : Token} :
    leadingToken? c cs = some t ↔ Scan c cs t :=
  ⟨scan_of_leadingToken?, Scan.leadingToken?_eq⟩

/-! ## The text of a token and what follows it -/

/-- The text `rest` separates the token before it from all that follows: it is empty or starts with a
blank, which is a newline behind a line comment. -/
def Token.EndsBefore (t : Token) (rest : List Char) : Prop :=
  Separated rest ∧ ∀ text, t = .comment .line text → Stops (· ≠ '\n') rest

theorem spelling_numberToken (sign cs : List Char) :
    (numberToken sign cs).spelling.toList = sign ++ (leadingConstant cs).text := by
  unfold numberToken
  simp only []
  split <;> simp [Token.spelling]

/-- The token of a number depends only on the constant at the start of the text. -/
theorem numberToken_congr {sign cs ds : List Char} (h : leadingConstant cs = leadingConstant ds) :
    numberToken sign cs = numberToken sign ds := by
  unfold numberToken
  rw [h]

/-- The token `t` is spelled `c :: w`, and it is found in front of `rest` no matter where a blank cuts
`rest` off, be it right behind the token or behind a part `u` of `rest`. A line comment still has to
end where it ended. -/
structure Cut (c : Char) (w rest : List Char) (t : Token) : Prop where
  spelling : t.spelling.toList = c :: w
  scan : ∀ u x v, rest = u ++ x → Separated v →
    (∀ text, t = .comment .line text → Stops (· ≠ '\n') rest → Stops (· ≠ '\n') (u ++ v)) →
    Scan c (w ++ (u ++ v)) t

theorem takeWhile_lineComment {body rest : List Char} (hbody : ∀ d ∈ body, d ≠ '\n')
    (hrest : Stops (· ≠ '\n') rest) :
    ('/' :: '/' :: (body ++ rest)).takeWhile (· ≠ '\n') = '/' :: '/' :: body := by
  change (('/' :: '/' :: body) ++ rest).takeWhile _ = _
  refine takeWhile_run (fun d hd => ?_) hrest
  simp only [List.mem_cons] at hd
  rcases hd with rfl | rfl | hd
  · decide
  · decide
  · simpa using hbody d hd

theorem exists_cut_lineComment (cs : List Char) :
    ∃ w rest, '/' :: cs = w ++ rest ∧ Cut '/' w rest
      (.comment .line (String.ofList (('/' :: '/' :: cs).takeWhile (· ≠ '\n')))) := by
  obtain ⟨body, rest, rfl, hbody, hrest⟩ := exists_run (· ≠ '\n') cs
  have htake := fun rest => @takeWhile_lineComment body rest (by simpa using hbody)
  rw [htake rest hrest]
  refine ⟨'/' :: body, rest, rfl, by simp [Token.spelling], ?_⟩
  rintro u x v rfl hv hline
  rw [← htake _ (hline _ rfl hrest)]
  exact .lineComment _

theorem exists_cut_blockComment {cs t : List Char} (h : takeThrough? ['*', '/'] cs = some t) :
    ∃ w rest, '*' :: cs = w ++ rest ∧
      Cut '/' w rest (.comment .block (String.ofList ('/' :: '*' :: t))) := by
  obtain ⟨-, -, rest, rfl⟩ := takeThrough?_spec (by simp) h
  exact ⟨'*' :: t, rest, rfl, by simp [Token.spelling],
    fun _ _ _ _ _ _ => .blockComment (takeThrough?_append (by simp) h _)⟩

theorem exists_cut_string {cs t : List Char} (h : stringTail? cs = some t) :
    ∃ w rest, cs = w ++ rest ∧ Cut '"' w rest (.string (String.ofList ('"' :: t))) := by
  obtain ⟨⟨rest, rfl⟩, hstable⟩ := stringTail?_spec h
  exact ⟨t, rest, rfl, by simp [Token.spelling], fun _ _ _ _ _ _ => .string (hstable _)⟩

theorem exists_cut_signedNumber {c : Char} {cs : List Char} (hc : c = '+' ∨ c = '-')
    (h : startsNumber cs = true) :
    ∃ w rest, cs = w ++ rest ∧ Cut c w rest (numberToken [c] cs) := by
  have hlongest := longest_leadingConstant h
  obtain ⟨rest, hrest⟩ := hlongest.isPrefix
  refine ⟨(leadingConstant cs).text, rest, hrest.symm, spelling_numberToken _ _, ?_⟩
  rintro u x v rfl hv -
  have hcut : leadingConstant ((leadingConstant cs).text ++ (u ++ v)) = leadingConstant cs :=
    leadingConstant_cut (x := x) (by rwa [hrest]) hv
  rw [← numberToken_congr hcut]
  exact .signedNumber hc (hlongest.wellFormed.startsNumber _)

theorem exists_cut_number {c : Char} {cs : List Char} (h : startsNumber (c :: cs) = true) :
    ∃ w rest, cs = w ++ rest ∧ Cut c w rest (numberToken [] (c :: cs)) := by
  have hlongest := longest_leadingConstant h
  have hspell := spelling_numberToken [] (c :: cs)
  have hcongr := fun ds => @numberToken_congr [] ds (c :: cs)
  generalize leadingConstant (c :: cs) = k at hlongest hspell hcongr
  obtain ⟨text, isFloat⟩ := k
  -- The text of the constant is not empty, so it starts with `c`.
  obtain ⟨d, w, rfl⟩ := List.exists_cons_of_ne_nil hlongest.wellFormed.ne_nil
  obtain ⟨rest, hrest⟩ := hlongest.isPrefix
  obtain ⟨rfl, rfl⟩ := List.cons.inj hrest
  refine ⟨w, rest, rfl, hspell, ?_⟩
  rintro u x v rfl hv -
  rw [← hcongr _ (leadingConstant_cut hlongest hv)]
  exact .number (hlongest.wellFormed.startsNumber _)

theorem exists_cut_signedInfinity {c : Char} {cs : List Char} (hc : c = '+' ∨ c = '-')
    (hi : cs.head? = some 'i') (h : (suffixChars? (leadingWord cs) ['i', 'n', 'f']).isSome) :
    ∃ w rest, cs = w ++ rest ∧ Cut c w rest (.infinity (String.ofList (c :: leadingWord cs))) := by
  obtain ⟨word, rest, rfl, hw, hrest⟩ := exists_run isWordPart cs
  have hword : leadingWord (word ++ rest) = word := takeWhile_run hw hrest
  rw [hword] at h ⊢
  refine ⟨word, rest, rfl, by simp [Token.spelling], ?_⟩
  rintro u x v rfl hv -
  have hword' : leadingWord (word ++ (u ++ v)) = word :=
    takeWhile_run hw (hrest.replace fun _ => hv.stops (by decide))
  have hi' : (word ++ (u ++ v)).head? = some 'i' := by
    cases word with
    | nil => exact absurd h (by decide)
    | cons d word => simpa using hi
  have h' : (suffixChars? (leadingWord (word ++ (u ++ v))) ['i', 'n', 'f']).isSome = true := by
    rwa [hword']
  have hscan := Scan.signedInfinity hc hi' h'
  rwa [hword'] at hscan

theorem exists_cut_word {c : Char} (cs : List Char) (hc : isWordStart c) :
    ∃ w rest, cs = w ++ rest ∧
      Cut c w rest (wordToken (String.ofList (leadingWord (c :: cs)))) := by
  obtain ⟨word, rest, rfl, hw, hrest⟩ := exists_run isWordPart cs
  have hword : ∀ rest, Stops isWordPart rest → leadingWord (c :: (word ++ rest)) = c :: word := by
    intro rest hrest
    rw [leadingWord_cons hc]
    exact congrArg (c :: ·) (takeWhile_run hw hrest)
  rw [hword rest hrest]
  refine ⟨word, rest, rfl, by simp [spelling_wordToken], ?_⟩
  rintro u x v rfl hv -
  have hscan := Scan.word (word ++ (u ++ v)) hc
  rwa [hword _ (hrest.replace fun _ => hv.stops (by decide))] at hscan

theorem startsNumber_dot_eq_false_iff {cs : List Char} :
    startsNumber ('.' :: cs) = false ↔ Stops Char.isDigit cs := by
  cases cs with
  | nil => exact iff_of_true rfl fun _ hd => nomatch hd
  | cons d cs => exact ⟨fun h _ hd => Option.some.inj hd ▸ h, fun h => h d rfl⟩

theorem exists_cut_punct {c : Char} {cs : List Char} {p : Punct} (hp : Punct.ofChar? c = some p)
    (h : startsNumber (c :: cs) = false) :
    ∃ w rest, cs = w ++ rest ∧ Cut c w rest (.punct p) := by
  refine ⟨[], cs, rfl, by simp [Token.spelling, Punct.char_of_ofChar? hp], ?_⟩
  rintro u x v rfl hv -
  refine .punct hp ?_
  by_cases hdot : c = '.'
  · subst hdot
    rw [startsNumber_dot_eq_false_iff] at h
    exact startsNumber_dot_eq_false_iff.mpr (h.replace fun _ => hv.stops (by decide))
  · obtain ⟨-, -, -, -, -, hd⟩ := not_special_of_ofChar? hp
    rwa [startsNumber_cons hdot]

/-- **A token and its surroundings.** The text starts with the spelling of the token that is found
there, and the same token is found if what follows is cut off. -/
theorem Scan.exists_cut {c : Char} {cs : List Char} {t : Token} (h : Scan c cs t) :
    ∃ w rest, cs = w ++ rest ∧ Cut c w rest t := by
  cases h with
  | lineComment cs => exact exists_cut_lineComment cs
  | blockComment h => exact exists_cut_blockComment h
  | string h => exact exists_cut_string h
  | signedNumber hc h => exact exists_cut_signedNumber hc h
  | signedInfinity hc hi h => exact exists_cut_signedInfinity hc hi h
  | number h => exact exists_cut_number h
  | word cs hc => exact exists_cut_word cs hc
  | punct hp h => exact exists_cut_punct hp h

/-- A token is found again when something else that separates it follows. -/
theorem Scan.exists_rest {c : Char} {cs : List Char} {t : Token} (h : Scan c cs t) :
    ∃ w rest, t.spelling.toList = c :: w ∧ cs = w ++ rest ∧
      ∀ rest, t.EndsBefore rest → Scan c (w ++ rest) t := by
  obtain ⟨w, rest, hcs, hcut⟩ := h.exists_cut
  exact ⟨w, rest, hcut.spelling, hcs,
    fun v hv => hcut.scan [] rest v rfl hv.1 fun text ht _ => hv.2 text ht⟩

end IntervalSuite.Itl
