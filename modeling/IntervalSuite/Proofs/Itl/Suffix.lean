import IntervalSuite.Proofs.Itl.Tiling
import IntervalSuite.Itl.Document.Parser

/-!
# Suffixes of numbers and special words

The lexer finds the suffix of a constant from the left, behind the digits. The parser looks for it
again at the end of the text of a token, with simpler rules: letters of a suffix for an integer, and
the last character for a floating constant. Both find the same suffix, as no body of an integer ends
with a letter of a suffix (`IntBody.exists_last`) and no body of a floating constant with the suffix
of one (`FloatBody.exists_last`).

* `IntegerSuffix`, `FloatSuffix`, `SpecialSuffix`: the suffix that the lexer has taken, and what the
  parser makes of the token.
* `tokenize_suffixes`: they hold of every token of a source.
-/

namespace IntervalSuite.Itl

open Text
open Itl.Parser (intSuffix floatSuffix number bound)

/-! ## What both find -/

/-- The sign of a number or of an infinity. -/
def signs : List (List Char) := [[], ['+'], ['-']]

/-- `c` is a mark of a length in the suffix of an integer. -/
def isLengthMark (c : Char) : Bool := c == 'l' || c == 'L'

/-- The text of an integer in front of `rest`: the lexer has taken the suffix behind the digits, and
the parser finds the same. The suffix says whether the integer is unsigned and how long it is, and an
integer is the bound of an interval only without a suffix. -/
structure IntegerSuffix (text : String) (rest suffix : List Char) : Prop where
  scanned : ∃ sign body, sign ∈ signs ∧ IntBody body ∧ text.toList = sign ++ (body ++ suffix) ∧
    leadingIntSuffix (suffix ++ rest) = suffix
  found : intSuffix text = String.ofList suffix
  unsigned : (IntType.ofSuffix (intSuffix text)).2 = true ↔ 'u' ∈ suffix ∨ 'U' ∈ suffix
  width : [IntType.int, .long, .longLong][suffix.countP isLengthMark]? =
    some (IntType.ofSuffix (intSuffix text)).1
  isBound : ∀ l ts, (∃ r, bound (⟨.integer text, l⟩ :: ts) = .ok r) ↔ suffix = []

/-- The text of a floating constant in front of `rest`, likewise. Only `F` and `L` select a
format. -/
structure FloatSuffix (text : String) (rest suffix : List Char) : Prop where
  scanned : ∃ sign body, sign ∈ signs ∧ FloatBody body ∧ text.toList = sign ++ (body ++ suffix) ∧
    leadingFloatSuffix (suffix ++ rest) = suffix
  found : floatSuffix text = String.ofList suffix
  type : (number text).1 =
    if suffix = ['F'] then .float else if suffix = ['L'] then .longDouble else .double

/-- A special word: its sign, the base word and the letters behind it, which the parser finds. -/
structure SpecialSuffix (sign : List Char) (text base : String) (suffix : List Char) : Prop where
  scanned : text.toList = sign ++ (base.toList ++ suffix)
  found : specialSuffix? text base = some (String.ofList suffix)

/-- The token in front of `rest` has been scanned with the suffix, and the parser sees the same. A
word with a sign is an infinity, and tokens of the other kinds have no suffix. -/
def Token.HasSuffix (rest suffix : List Char) : Token → Prop
  | integer text => IntegerSuffix text rest suffix
  | float text => FloatSuffix text rest suffix
  | infinity text => ∃ sign ∈ signs, SpecialSuffix sign text "inf" suffix
  | special kind text => SpecialSuffix [] text kind.word suffix
  | _ => suffix = []

/-! ## Integers -/

theorem isHexDigit_of_isDigit {c : Char} (h : c.isDigit) : isHexDigit c = true := by
  simp [isHexDigit, h]

theorem IsRun.exists_last {digit : Char → Bool} {ds : List Char} (h : IsRun digit ds) :
    ∃ init d, ds = init ++ [d] ∧ digit d = true := by
  obtain ⟨hne, hd⟩ := h
  refine ⟨ds.dropLast, ds.getLast hne, (List.dropLast_append_getLast hne).symm, ?_⟩
  exact hd _ (List.getLast_mem hne)

theorem IntBody.exists_last {body : List Char} (h : IntBody body) :
    ∃ init d, body = init ++ [d] ∧ isHexDigit d = true := by
  cases h with
  | decimal hd =>
    obtain ⟨init, d, rfl, hlast⟩ := hd.exists_last
    exact ⟨init, d, rfl, isHexDigit_of_isDigit hlast⟩
  | @hex x ds hx hd =>
    rw [isHexDigit_eq] at hd
    obtain ⟨init, d, rfl, hlast⟩ := hd.exists_last
    exact ⟨'0' :: x :: init, d, rfl, hlast⟩

/-- `c` is a letter of the suffix of an integer. -/
def isIntSuffixPart (c : Char) : Bool := c == 'u' || c == 'U' || c == 'l' || c == 'L'

theorem not_isIntSuffixPart_of_isHexDigit {c : Char} (h : isHexDigit c) :
    isIntSuffixPart c = false := by
  rw [Bool.eq_false_iff]
  intro hs
  simp only [isIntSuffixPart, Bool.or_eq_true, beq_iff_eq] at hs
  rcases hs with ((rfl | rfl) | rfl) | rfl <;> revert h <;> decide

/-- The letters at the end of an integer are its suffix. -/
theorem intSuffix_eq {text : String} {sign body suffix : List Char} (hb : IntBody body)
    (hs : suffix ∈ [] :: intSuffixes) (htext : text.toList = sign ++ (body ++ suffix)) :
    intSuffix text = String.ofList suffix := by
  obtain ⟨init, d, rfl, hd⟩ := hb.exists_last
  have hletters : ∀ s ∈ [] :: intSuffixes, ∀ c ∈ s.reverse, isIntSuffixPart c := by
    simp [intSuffixes, isIntSuffixPart]
  have hstops : Stops isIntSuffixPart (d :: (init.reverse ++ sign.reverse)) :=
    .cons (not_isIntSuffixPart_of_isHexDigit hd) _
  have hrun := takeWhile_run (hletters suffix hs) hstops
  have hrev : text.toList.reverse = suffix.reverse ++ d :: (init.reverse ++ sign.reverse) := by
    simp [htext]
  change String.ofList (text.toList.reverse.takeWhile isIntSuffixPart).reverse = _
  rw [hrev, hrun, List.reverse_reverse]

theorem integerSuffix_of_parts {text : String} {sign body rest suffix : List Char}
    (hsign : sign ∈ signs) (hb : IntBody body) (htext : text.toList = sign ++ (body ++ suffix))
    (hscan : leadingIntSuffix (suffix ++ rest) = suffix) : IntegerSuffix text rest suffix := by
  have hs : suffix ∈ [] :: intSuffixes := hscan ▸ leadingIntSuffix_mem (suffix ++ rest)
  have hfound := intSuffix_eq hb hs htext
  -- There are finitely many suffixes, and what is said of the types holds of each of them.
  have htypes : ∀ s ∈ [] :: intSuffixes,
      ((IntType.ofSuffix (String.ofList s)).2 = true ↔ 'u' ∈ s ∨ 'U' ∈ s) ∧
      [IntType.int, .long, .longLong][s.countP isLengthMark]? =
        some (IntType.ofSuffix (String.ofList s)).1 := by
    decide
  refine ⟨⟨sign, body, hsign, hb, htext, hscan⟩, hfound, ?_, ?_, fun l ts => ?_⟩
  · rw [hfound]
    exact (htypes suffix hs).1
  · rw [hfound]
    exact (htypes suffix hs).2
  · have hempty : intSuffix text = "" ↔ suffix = [] := by
      rw [hfound, ← String.toList_inj]
      simp
    rw [← hempty, bound]
    by_cases h : intSuffix text = ""
    · simp [h]
    · simp [h]

/-! ## Floating constants -/

theorem Exponent.exists_last {marks e : List Char} (h : Exponent marks e) :
    ∃ init d, e = init ++ [d] ∧ d.isDigit := by
  cases h with
  | @mk m sign ds hm hs hd =>
    obtain ⟨init, d, rfl, hlast⟩ := hd.exists_last
    exact ⟨m :: (sign ++ init), d, by simp, hlast⟩

/-- A body with an exponent ends with a digit, and one without it may end with its point. -/
theorem FloatBody.exists_last {body : List Char} (h : FloatBody body) :
    ∃ init d, body = init ++ [d] ∧ (d.isDigit ∨ d = '.') := by
  cases h with
  | fixed hm =>
    cases hm with
    | @point as bs hne ha hb =>
      by_cases hbs : bs = []
      · exact ⟨as, '.', by rw [hbs], .inr rfl⟩
      · obtain ⟨init, d, rfl, hlast⟩ := IsRun.exists_last ⟨hbs, hb⟩
        exact ⟨as ++ '.' :: init, d, by simp, .inl hlast⟩
  | decimal hm he =>
    obtain ⟨init, d, rfl, hlast⟩ := he.exists_last
    exact ⟨_ ++ init, d, (List.append_assoc ..).symm, .inl hlast⟩
  | @hex x m _ _ hx hm he =>
    obtain ⟨init, d, rfl, hlast⟩ := he.exists_last
    exact ⟨'0' :: x :: (m ++ init), d, by simp, .inl hlast⟩

theorem not_isFloatSuffix {d : Char} (h : d.isDigit ∨ d = '.') : isFloatSuffix d = false := by
  rw [Bool.eq_false_iff]
  intro hs
  simp only [isFloatSuffix, Bool.or_eq_true, beq_iff_eq] at hs
  rcases hs with ((rfl | rfl) | rfl) | rfl <;> revert h <;> decide

/-- The last character of a floating constant is its suffix, or it is none. -/
theorem floatSuffix_eq {text : String} {sign body suffix : List Char} (hb : FloatBody body)
    (hs : suffix ∈ [[], ['f'], ['F'], ['l'], ['L']])
    (htext : text.toList = sign ++ (body ++ suffix)) : floatSuffix text = String.ofList suffix := by
  obtain ⟨init, d, rfl, hd⟩ := hb.exists_last
  have hlast : text.toList.getLast? = some (suffix.getLast?.getD d) := by
    simp [htext, List.getLast?_cons]
  rw [floatSuffix, hlast]
  simp only [List.mem_cons, List.not_mem_nil, or_false] at hs
  rcases hs with rfl | rfl | rfl | rfl | rfl
  · simp [not_isFloatSuffix hd]
  all_goals rfl

theorem floatSuffix_of_parts {text : String} {sign body rest suffix : List Char}
    (hsign : sign ∈ signs) (hb : FloatBody body) (htext : text.toList = sign ++ (body ++ suffix))
    (hscan : leadingFloatSuffix (suffix ++ rest) = suffix) : FloatSuffix text rest suffix := by
  have hs : suffix ∈ [[], ['f'], ['F'], ['l'], ['L']] :=
    hscan ▸ leadingFloatSuffix_mem (suffix ++ rest)
  have hfound := floatSuffix_eq hb hs htext
  have htypes : ∀ s ∈ [[], ['f'], ['F'], ['l'], ['L']], FloatType.ofSuffix (String.ofList s) =
      if s = ['F'] then .float else if s = ['L'] then .longDouble else .double := by
    decide
  refine ⟨⟨sign, body, hsign, hb, htext, hscan⟩, hfound, ?_⟩
  rw [number, hfound]
  exact htypes suffix hs

/-! ## Special words -/

/-- `c` is a sign. -/
def isSign (c : Char) : Bool := c == '+' || c == '-'

theorem suffixChars?_eq_some {word base suffix : List Char}
    (h : suffixChars? word base = some suffix) : word.dropWhile isSign = base ++ suffix := by
  unfold suffixChars? at h
  split at h
  · rename_i hpre
    cases h
    exact (List.append_eq_of_isPrefixOf?_eq_some hpre).symm
  · rename_i c hpre
    split at h
    · cases h
      exact (List.append_eq_of_isPrefixOf?_eq_some hpre).symm
    · cases h
  · cases h

theorem dropWhile_signs {sign word : List Char} (hsign : sign ∈ signs) (hw : Stops isSign word) :
    (sign ++ word).dropWhile isSign = word := by
  have hall : ∀ s ∈ signs, ∀ c ∈ s, isSign c := by
    simp [signs, isSign]
  rw [List.dropWhile_append_of_pos (hall sign hsign)]
  cases word with
  | nil => rfl
  | cons c word => exact List.dropWhile_cons_of_neg (by simp [hw c rfl])

/-- The signs in front of a word make no difference to its suffix. -/
theorem specialSuffix_of_word {sign word suffix : List Char} {base : String} (hsign : sign ∈ signs)
    (hw : Stops isSign word) (h : suffixChars? word base.toList = some suffix) :
    SpecialSuffix sign (String.ofList (sign ++ word)) base suffix := by
  have hword : word.dropWhile isSign = word :=
    dropWhile_signs (show [] ∈ signs by simp [signs]) hw
  have hdrop : (sign ++ word).dropWhile isSign = word.dropWhile isSign := by
    rw [dropWhile_signs hsign hw, hword]
  have hsame : suffixChars? (sign ++ word) base.toList = suffixChars? word base.toList := by
    unfold isSign at hdrop
    rw [suffixChars?, hdrop, suffixChars?]
  refine ⟨by rw [String.toList_ofList, ← suffixChars?_eq_some h, hword], ?_⟩
  rw [specialSuffix?, String.toList_ofList, hsame, h]
  rfl

theorem hasSuffix_of_keyword? {word : String} {t : Token} (h : keyword? word = some t)
    (rest : List Char) : t.HasSuffix rest [] := by
  unfold keyword? at h
  split at h
  · cases h
    rfl
  · split at h
    · cases h
      rfl
    · split at h
      · cases h
        rfl
      · split at h
        · cases h
          rfl
        · rw [Option.map_eq_some_iff] at h
          obtain ⟨o, -, rfl⟩ := h
          rfl

theorem hasSuffix_wordToken {word : List Char} (hw : Stops isSign word) (rest : List Char) :
    ∃ suffix, (wordToken (String.ofList word)).HasSuffix rest suffix := by
  have hspecial : ∀ base, (specialSuffix? (String.ofList word) base).isSome →
      ∃ suffix, SpecialSuffix [] (String.ofList word) base suffix := by
    intro base h
    rw [specialSuffix?, String.toList_ofList, Option.isSome_map, Option.isSome_iff_exists] at h
    obtain ⟨suffix, hs⟩ := h
    exact ⟨suffix, specialSuffix_of_word (by simp [signs]) hw hs⟩
  unfold wordToken
  split
  · exact ⟨[], hasSuffix_of_keyword? ‹_› rest⟩
  · split
    · rename_i hinf
      obtain ⟨suffix, hs⟩ := hspecial _ hinf
      exact ⟨suffix, [], by simp [signs], hs⟩
    · split
      · rename_i kind hkind
        have hsome := List.find?_some hkind
        exact hspecial kind.word hsome
      · exact ⟨[], rfl⟩

/-! ## All tokens -/

/-- The token of a number has the suffix that the scanner has found behind its body. -/
theorem hasSuffix_numberToken {sign cs rest : List Char} (hsign : sign ∈ signs)
    (hstart : startsNumber cs = true) (hcs : cs = (leadingConstant cs).text ++ rest) :
    ∃ suffix, (numberToken sign cs).HasSuffix rest suffix := by
  have hscan := scanned_leadingConstant hstart
  unfold numberToken
  generalize leadingConstant cs = k at hscan hcs ⊢
  cases hscan with
  | @integer body behind hbody hbehind =>
    rw [hbehind, List.append_assoc, List.append_cancel_left_eq] at hcs
    exact ⟨_, integerSuffix_of_parts hsign hbody String.toList_ofList (by rw [← hcs])⟩
  | @float body behind hbody hbehind =>
    rw [hbehind, List.append_assoc, List.append_cancel_left_eq] at hcs
    exact ⟨_, floatSuffix_of_parts hsign hbody String.toList_ofList (by rw [← hcs])⟩

/-- **One token.** However a token has been found, the parser sees the suffix that was scanned. -/
theorem Scan.hasSuffix {c : Char} {w rest : List Char} {t : Token} (h : Scan c (w ++ rest) t)
    (hspell : t.spelling.toList = c :: w) : ∃ suffix, t.HasSuffix rest suffix := by
  generalize hcs : w ++ rest = cs at h
  cases h with
  | lineComment | blockComment | string | punct => exact ⟨[], rfl⟩
  | signedNumber hc hn =>
    rw [spelling_numberToken] at hspell
    obtain ⟨-, rfl⟩ := List.cons.inj hspell
    exact hasSuffix_numberToken (by simpa [signs] using hc) hn hcs.symm
  | number hn =>
    rw [spelling_numberToken, List.nil_append] at hspell
    exact hasSuffix_numberToken (by simp [signs]) hn (by rw [hspell, ← hcs]; rfl)
  | signedInfinity hc hi hs =>
    obtain ⟨suffix, hs⟩ := Option.isSome_iff_exists.mp hs
    have hstops : Stops isSign (leadingWord cs) := by
      intro d hd
      rw [leadingWord, List.head?_takeWhile, hi] at hd
      obtain ⟨⟨⟩, -⟩ := Option.filter_eq_some_iff.mp hd
      rfl
    have hsign : [c] ∈ signs := by simpa [signs] using hc
    exact ⟨suffix, [c], hsign, specialSuffix_of_word hsign hstops hs⟩
  | word cs hc =>
    obtain ⟨-, -, hplus, hminus, -⟩ := not_special_of_isWordStart hc
    refine hasSuffix_wordToken ?_ rest
    rw [leadingWord_cons hc]
    exact .cons (by simp [isSign, hplus, hminus]) _

/-- **The lexer and the parser see the same suffixes.** Every token of a source stands where its
location says, and its suffix that was scanned in front of the rest of the source is the one from
which the parser infers the type. -/
theorem tokenize_suffixes (source : String) (l : Lexeme) (hl : l ∈ tokenize source) :
    ∃ before rest suffix, source.toList = before ++ (l.token.spelling.toList ++ rest) ∧
      l.location = .behind before ∧ l.token.HasSuffix rest suffix := by
  have htiling := tiling_pieces source.toList
  rw [tokenize_eq] at hl
  rcases List.mem_append.mp hl with hl | hl
  · obtain ⟨before, c, w, rest, hsource, hspell, hloc, hscan⟩ := htiling.exists_scan hl
    obtain ⟨suffix, hs⟩ := hscan.hasSuffix hspell
    exact ⟨before, rest, suffix, by rw [hsource, hspell], hloc, hs⟩
  · obtain rfl := List.mem_singleton.mp hl
    exact ⟨source.toList, [], [], by simp [Token.spelling], rfl, rfl⟩

/-- The digit `F` of a hexadecimal integer is no part of its suffix. -/
theorem tokenize_suffixes_hex :
    ⟨.integer "-0xFul", ⟨1, 2⟩⟩ ∈ tokenize " -0xFul,0x1p3F" ∧
      ∃ before rest suffix, " -0xFul,0x1p3F".toList = before ++ ("-0xFul".toList ++ rest) ∧
        ⟨1, 2⟩ = Location.behind before ∧ (Token.integer "-0xFul").HasSuffix rest suffix := by
  have h : ⟨.integer "-0xFul", ⟨1, 2⟩⟩ ∈ tokenize " -0xFul,0x1p3F" := by decide +kernel
  exact ⟨h, tokenize_suffixes _ _ h⟩

end IntervalSuite.Itl
