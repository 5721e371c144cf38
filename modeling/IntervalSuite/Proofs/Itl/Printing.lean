import IntervalSuite.Proofs.Itl.Tiling
import IntervalSuite.Itl.Document.Parser

/-!
# Printing documents

The tokens of a document (`Document.tokens`) and its text (`Document.print`): the spellings of the
tokens with one space between them, and a newline in the place of the space behind a line comment. An
infinity and the word of an interval without bounds are spelled with the suffix of their format.

`Document.WellFormed` says which documents a source can give: its lists are not empty where the
grammar wants something, and its texts are single tokens of their kinds with suffixes that give the
stored types. It can be decided.

* `tokenize_spell`: the lexer reads the tokens back from their spellings.
-/

namespace IntervalSuite.Itl

open Text
open Itl.Parser (intSuffix floatSuffix)

/-! ## Single tokens -/

/-- The lexer reads the spelling of the token as this token and nothing else. -/
def Token.Spelled (t : Token) : Prop := pieces t.spelling.toList = [.token t]

instance : DecidablePred Token.Spelled := fun t =>
  inferInstanceAs (Decidable (pieces t.spelling.toList = [.token t]))

/-- Each of the tokens is read alone. -/
def AllSpelled (ts : List Token) : Prop := ∀ t ∈ ts, t.Spelled

@[simp] theorem allSpelled_nil : AllSpelled [] := by
  simp [AllSpelled]

@[simp] theorem allSpelled_cons {t : Token} {ts : List Token} :
    AllSpelled (t :: ts) ↔ t.Spelled ∧ AllSpelled ts := by
  simp [AllSpelled]

@[simp] theorem allSpelled_append {ts us : List Token} :
    AllSpelled (ts ++ us) ↔ AllSpelled ts ∧ AllSpelled us := by
  simp [AllSpelled, or_imp, forall_and]

theorem allSpelled_flatMap {α : Type} {as : List α} {f : α → List Token}
    (h : ∀ a ∈ as, AllSpelled (f a)) : AllSpelled (as.flatMap f) := by
  intro t ht
  obtain ⟨a, ha, ht⟩ := List.mem_flatMap.mp ht
  exact h a ha t ht

/-- The suffix that selects the format. -/
def FloatType.suffix : FloatType → String
  | float => "F"
  | double => ""
  | longDouble => "L"

/-- The infinity of a format. -/
def Token.ofInfinity (type : FloatType) (sign : Sign) : Token :=
  .infinity ((if sign = .minus then "-" else "") ++ "inf" ++ type.suffix)

/-- The word of an interval without bounds. -/
def Token.ofSpecial (kind : SpecialKind) (type : FloatType) : Token :=
  .special kind (kind.word ++ type.suffix)

/-- The constant that a text spells: a floating one if it can be one. -/
def Token.ofNumber (text : String) : Token :=
  if (Token.float text).Spelled then .float text else .integer text

/-- The name of an operation; the word `inf` is an infinity wherever it stands. -/
def Token.ofOperation (name : String) : Token :=
  if name = "inf" then .infinity name else .identifier name

/-! ## The tokens of a document -/

def Comment.token (c : Comment) : Token := .comment c.style c.text

def Scalar.boundToken (type : FloatType) : Scalar → Token
  | number text => .ofNumber text
  | infinity sign => .ofInfinity type sign

def decorationTokens : Option Decoration → List Token
  | none => []
  | some d => [.punct .underscore, .decoration d]

def Interval.tokens : Interval → List Token
  | infSup type inf sup d =>
    .punct .openBracket :: inf.boundToken type :: .punct .comma :: sup.boundToken type ::
      .punct .closeBracket :: decorationTokens d
  | special kind type d =>
    .punct .openBracket :: .ofSpecial kind type :: .punct .closeBracket :: decorationTokens d

def Literal.tokens : Literal → List Token
  | integer text _ _ => [.integer text]
  | real _ (.number text) => [.float text]
  | real type (.infinity sign) => [.ofInfinity type sign]
  | string text => [.string text]
  | boolean value => [.boolean value]
  | overlap state => [.overlap state]
  | interval value => value.tokens

def tightestTokens : Option (List Literal) → List Token
  | none => []
  | some os => .punct .equals :: os.flatMap Literal.tokens

def accurateTokens : Option (List Literal) → List Token
  | none => []
  | some os => .punct .less :: .punct .equals :: os.flatMap Literal.tokens

def Test.tokens (t : Test) : List Token :=
  t.comments.map Comment.token ++ .ofOperation t.operation ::
    (t.inputs.flatMap Literal.tokens ++ (tightestTokens t.outputs.tightest? ++
      (accurateTokens t.outputs.accurate? ++ [.punct .semicolon])))

/-- The identifiers of a name with dots between them. -/
def nameTokens : List String → List Token
  | [] => []
  | [part] => [.identifier part]
  | part :: next :: parts => .identifier part :: .punct .dot :: nameTokens (next :: parts)

/-- A testcase without its comments. -/
def Testcase.bodyTokens (t : Testcase) : List Token :=
  .testcase :: (nameTokens t.name ++ .punct .openBrace ::
    (t.tests.flatMap Test.tokens ++ [.punct .closeBrace]))

def Testcase.tokens (t : Testcase) : List Token :=
  t.comments.map Comment.token ++ t.bodyTokens

def Document.tokens (d : Document) : List Token :=
  (d.comment.map Comment.token).toList ++ d.testcases.flatMap Testcase.tokens

/-! ## Its text -/

/-- What stands between a token and the next one: a line comment ends with its line. -/
def Token.gap : Token → Char
  | comment .line _ => '\n'
  | _ => ' '

/-- The spellings of tokens with the gaps between them. -/
def spell : List Token → List Char
  | [] => []
  | [t] => t.spelling.toList
  | t :: u :: ts => t.spelling.toList ++ t.gap :: spell (u :: ts)

/-- The text of a document. -/
def Document.print (d : Document) : String := String.ofList (spell d.tokens)

/-! ## Well-formed documents -/

/-- The number of a bound is a floating constant of the format, or an integer without a suffix, which
has the format `double`. -/
def Scalar.IsBoundOf (type : FloatType) : Scalar → Prop
  | number text =>
    ((Token.float text).Spelled ∧ FloatType.ofSuffix (floatSuffix text) = type) ∨
      ((Token.integer text).Spelled ∧ intSuffix text = "" ∧ type = .double)
  | infinity _ => True

/-- Both bounds have the one format of the interval, and of the intervals without bounds only
`entire` is decorated. -/
def Interval.WellFormed : Interval → Prop
  | infSup type inf sup _ => inf.IsBoundOf type ∧ sup.IsBoundOf type
  | special kind _ d => kind = .entire ∨ d = none

/-- A text is a single token of its kind, and its suffix gives the type that is stored. -/
def Literal.WellFormed : Literal → Prop
  | integer text type unsigned =>
    (Token.integer text).Spelled ∧ IntType.ofSuffix (intSuffix text) = (type, unsigned)
  | real type (.number text) =>
    (Token.float text).Spelled ∧ FloatType.ofSuffix (floatSuffix text) = type
  | string text => (Token.string text).Spelled
  | interval value => value.WellFormed
  | real _ (.infinity _) | boolean _ | overlap _ => True

def Comment.WellFormed (c : Comment) : Prop := c.token.Spelled

/-- An output list that is there has a literal in it. -/
def Outputs.WellFormed (o : Outputs) : Prop :=
  (∀ os ∈ o.tightest?, os ≠ [] ∧ ∀ a ∈ os, a.WellFormed) ∧
    ∀ os ∈ o.accurate?, os ≠ [] ∧ ∀ a ∈ os, a.WellFormed

/-- The operation is an identifier, which no reserved word is, or `inf`. -/
def Test.WellFormed (t : Test) : Prop :=
  (∀ c ∈ t.comments, c.WellFormed) ∧
    (t.operation = "inf" ∨ (Token.identifier t.operation).Spelled) ∧
    (∀ a ∈ t.inputs, a.WellFormed) ∧ t.outputs.WellFormed

def Testcase.WellFormed (t : Testcase) : Prop :=
  (∀ c ∈ t.comments, c.WellFormed) ∧
    t.name ≠ [] ∧ (∀ part ∈ t.name, (Token.identifier part).Spelled) ∧
    t.tests ≠ [] ∧ ∀ test ∈ t.tests, test.WellFormed

/-- There is a testcase, and a document comment if the first testcase has comments. -/
def Document.WellFormed (d : Document) : Prop :=
  d.testcases ≠ [] ∧ (d.comment = none → ∀ t ∈ d.testcases.head?, t.comments = []) ∧
    (∀ c ∈ d.comment, c.WellFormed) ∧ ∀ t ∈ d.testcases, t.WellFormed

instance (type : FloatType) : DecidablePred (Scalar.IsBoundOf type)
  | .number _ => inferInstanceAs (Decidable (_ ∨ _))
  | .infinity _ => inferInstanceAs (Decidable True)

instance : DecidablePred Interval.WellFormed
  | .infSup .. => inferInstanceAs (Decidable (_ ∧ _))
  | .special .. => inferInstanceAs (Decidable (_ ∨ _))

instance : DecidablePred Literal.WellFormed
  | .integer .. => inferInstanceAs (Decidable (_ ∧ _))
  | .real _ (.number _) => inferInstanceAs (Decidable (_ ∧ _))
  | .string text => inferInstanceAs (Decidable (Token.string text).Spelled)
  | .interval i => inferInstanceAs (Decidable i.WellFormed)
  | .real _ (.infinity _) | .boolean _ | .overlap _ => inferInstanceAs (Decidable True)

instance : DecidablePred Comment.WellFormed := fun c =>
  inferInstanceAs (Decidable c.token.Spelled)

instance : DecidablePred Outputs.WellFormed := fun _ =>
  inferInstanceAs (Decidable (_ ∧ _))

instance : DecidablePred Test.WellFormed := fun _ =>
  inferInstanceAs (Decidable (_ ∧ _ ∧ _ ∧ _))

instance : DecidablePred Testcase.WellFormed := fun _ =>
  inferInstanceAs (Decidable (_ ∧ _ ∧ _ ∧ _ ∧ _))

instance : DecidablePred Document.WellFormed := fun _ =>
  inferInstanceAs (Decidable (_ ∧ _ ∧ _ ∧ _))

/-! ## Documents without locations -/

def Comment.unlocated (c : Comment) : Comment := { c with location := .start }

def Test.unlocated (t : Test) : Test :=
  { t with comments := t.comments.map Comment.unlocated, location := .start }

def Testcase.unlocated (t : Testcase) : Testcase :=
  { t with
    tests := t.tests.map Test.unlocated, comments := t.comments.map Comment.unlocated,
    location := .start }

/-- The document with all locations forgotten. -/
def Document.unlocated (d : Document) : Document :=
  { d with
    comment := d.comment.map Comment.unlocated, testcases := d.testcases.map Testcase.unlocated }

/-! ## Reading tokens back -/

theorem Token.endsBefore_nil (t : Token) : t.EndsBefore [] :=
  ⟨by simp [Separated], fun _ _ => by simp [Stops]⟩

theorem Token.endsBefore_gap (t : Token) (rest : List Char) : t.EndsBefore (t.gap :: rest) := by
  refine ⟨?_, ?_⟩
  · intro c hc
    obtain rfl : t.gap = c := by simpa using hc
    unfold Token.gap
    split <;> rfl
  · rintro text rfl
    exact Stops.cons rfl rest

/-- A token that is read alone is read in front of anything that separates it. -/
theorem Token.Spelled.fits {t : Token} {rest : List Char} (h : t.Spelled)
    (hrest : t.EndsBefore rest) : (Piece.token t).Fits rest := by
  obtain ⟨c, w, hspell, hscan⟩ : (Piece.token t).Fits [] := by
    have htiling := tiling_iff.mpr h.symm
    generalize t.spelling.toList = cs at htiling
    cases htiling with
    | cons _ hp hnil =>
      cases hnil
      exact hp
  obtain ⟨w', _, hspell', -, hagain⟩ := hscan.exists_rest
  obtain rfl : w' = w := by
    rw [hspell] at hspell'
    exact (List.cons.inj hspell').2.symm
  exact ⟨c, w', hspell, hagain rest hrest⟩

/-- A token that is read in front of some text is read alone. -/
theorem Token.spelled_of_fits {t : Token} {rest : List Char} (h : (Piece.token t).Fits rest) :
    t.Spelled := by
  obtain ⟨c, w, hspell, hscan⟩ := h
  obtain ⟨w', _, hspell', -, hagain⟩ := hscan.exists_rest
  have hfits : (Piece.token t).Fits [] := ⟨c, w', hspell', hagain [] t.endsBefore_nil⟩
  have hpieces := pieces_append (by simp [Piece.text, hspell]) hfits
  simpa [Token.Spelled, Piece.text, pieces] using hpieces

theorem Token.spelled_punct (p : Punct) : (Token.punct p).Spelled := by
  have hscan : Scan p.char [] (.punct p) := by
    cases p <;> exact .punct rfl rfl
  exact Token.spelled_of_fits ⟨p.char, [], by simp [Token.spelling], hscan⟩

/-- A word is read alone if its token is the one that the lexer makes of it. -/
theorem Token.spelled_of_word {t : Token} {c : Char} {cs : List Char}
    (hspell : t.spelling.toList = c :: cs) (hc : isWordStart c = true)
    (hcs : cs.all isWordPart = true) (ht : wordToken t.spelling = t) : t.Spelled := by
  have hword : leadingWord (c :: (cs ++ [])) = c :: cs := by
    rw [leadingWord_cons hc]
    exact congrArg (c :: ·) (takeWhile_run (List.all_eq_true.mp hcs) (by simp [Stops]))
  have hscan := Scan.word (cs ++ []) hc
  rw [hword, ← hspell, String.ofList_toList, ht] at hscan
  exact Token.spelled_of_fits ⟨c, cs, hspell, hscan⟩

theorem Token.spelled_testcase : Token.testcase.Spelled :=
  Token.spelled_of_word rfl rfl rfl (by decide)

theorem Token.spelled_boolean (value : Bool) : (Token.boolean value).Spelled := by
  cases value <;> exact Token.spelled_of_word rfl rfl rfl (by decide)

theorem Token.spelled_decoration (d : Decoration) : (Token.decoration d).Spelled := by
  cases d <;> exact Token.spelled_of_word rfl rfl rfl (by decide)

theorem Token.spelled_overlap (state : Overlap) : (Token.overlap state).Spelled := by
  cases state <;> exact Token.spelled_of_word rfl rfl rfl (by decide)

theorem Token.spelled_ofInfinity (type : FloatType) (sign : Sign) :
    (Token.ofInfinity type sign).Spelled := by
  cases sign with
  | plus => cases type <;> exact Token.spelled_of_word rfl rfl rfl (by decide)
  | minus =>
    have hscan : ∀ cs, cs.head? = some 'i' →
        (suffixChars? (leadingWord cs) ['i', 'n', 'f']).isSome → leadingWord cs = cs →
        Scan '-' (cs ++ []) (.infinity (String.ofList ('-' :: cs))) := by
      intro cs hi hs hword
      have h := Scan.signedInfinity (.inr rfl) hi hs
      rw [hword] at h
      rwa [List.append_nil]
    cases type <;> exact Token.spelled_of_fits ⟨'-', _, rfl, hscan _ rfl rfl rfl⟩

theorem Token.spelled_ofSpecial (kind : SpecialKind) (type : FloatType) :
    (Token.ofSpecial kind type).Spelled := by
  cases kind <;> cases type <;> exact Token.spelled_of_word rfl rfl rfl (by decide)

attribute [simp] Token.spelled_punct Token.spelled_testcase Token.spelled_boolean
  Token.spelled_decoration Token.spelled_overlap Token.spelled_ofInfinity Token.spelled_ofSpecial

theorem Token.Spelled.ne_nil {t : Token} (h : t.Spelled) : (Piece.token t).text ≠ [] := by
  obtain ⟨c, w, hspell, -⟩ := h.fits t.endsBefore_nil
  simp [Piece.text, hspell]

/-- The tokens of pieces, without locations. -/
def Piece.token? : Piece → Option Token
  | token t => some t
  | _ => none

theorem lexemesFrom_tokens (l : Location) (ps : List Piece) :
    (lexemesFrom l ps).map Lexeme.token = ps.filterMap Piece.token? ++ [.endOfFile] := by
  induction ps generalizing l with
  | nil => rfl
  | cons p ps ih => cases p <;> simp [lexemesFrom, Piece.token?, List.filterMap_cons, ih]

/-- A token that is read alone is cut off by its gap. -/
theorem Token.Spelled.pieces_gap {t : Token} (h : t.Spelled) (rest : List Char) :
    pieces (t.spelling.toList ++ t.gap :: rest) = .token t :: .blank t.gap :: pieces rest := by
  have hgap : (Piece.blank t.gap).Fits rest := by
    change t.gap ∈ [' ', '\t', '\r', '\n']
    unfold Token.gap
    split <;> simp
  rw [← pieces_append (by simp [Piece.text]) hgap]
  exact pieces_append h.ne_nil (h.fits (t.endsBefore_gap _))

theorem pieces_spell {ts : List Token} (h : AllSpelled ts) :
    (pieces (spell ts)).filterMap Piece.token? = ts := by
  fun_induction spell ts with
  | case1 => simp [pieces]
  | case2 t =>
    rw [h t (by simp)]
    rfl
  | case3 t u ts ih =>
    rw [(h t (by simp)).pieces_gap]
    simp only [List.filterMap_cons, Piece.token?]
    rw [ih fun v hv => h v (List.mem_cons_of_mem _ hv)]

/-- The lexer reads tokens back from their spellings. -/
theorem tokenize_spell {ts : List Token} (h : AllSpelled ts) :
    (tokenize (String.ofList (spell ts))).map Lexeme.token = ts ++ [.endOfFile] := by
  rw [tokenize, lexemesFrom_tokens, String.toList_ofList, pieces_spell h]

/-- Every token of a source is read alone as well. -/
theorem allSpelled_tokenize (source : String) :
    AllSpelled ((tokenize source).dropLast.map Lexeme.token) := by
  rw [List.map_dropLast, tokenize, lexemesFrom_tokens, List.dropLast_concat]
  have htiling := tiling_pieces source.toList
  generalize pieces source.toList = ps at htiling ⊢
  generalize source.toList = cs at htiling
  induction htiling with
  | nil => exact allSpelled_nil
  | @cons p rest ps _ hp _ ih =>
    cases p with
    | token t => exact allSpelled_cons.mpr ⟨Token.spelled_of_fits hp, ih⟩
    | blank | dropped | illegal => exact ih

end IntervalSuite.Itl
