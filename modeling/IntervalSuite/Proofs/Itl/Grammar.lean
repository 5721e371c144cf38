import IntervalSuite.Itl.Document.Parser

/-!
# The grammar of documents

Which lists of lexemes are a document, and which document. For every nonterminal of the grammar there
is a relation between the lexemes that it derives and the part of a document that these stand for;
the rules say nothing about looking ahead. Locations and comments go where the rules put them: the
very first comment of a file to the document, any other comment to the testcase or the test behind
it, and a testcase and a test stand where their first token other than a comment stands.

`Document.atoms` lists what a document keeps of a source, in the order of the document: comments,
words, numbers, infinities and all other parts of literals. `Lexeme.atom?` says which of these a
token gives, and `IsDocument.atoms_eq` that a derivation uses each of them once and in order.
-/

namespace IntervalSuite.Itl.Grammar

open Itl.Parser (intSuffix number infinity specialType startsLiteral)

/-! ## The rules -/

/-- Phrases of one kind, one behind the other. -/
inductive Many {α : Type} (R : List Lexeme → α → Prop) : List Lexeme → List α → Prop where
  | nil : Many R [] []
  | cons {ts us : List Lexeme} {a : α} {as : List α} (h : R ts a) (hs : Many R us as) :
      Many R (ts ++ us) (a :: as)

/-- A comment. -/
inductive IsComment : List Lexeme → Comment → Prop where
  | mk (style : CommentStyle) (text : String) (location : Location) :
      IsComment [⟨.comment style text, location⟩] ⟨style, text, location⟩

/-- A bound of an interval: a floating constant, an infinity, or an integer without a suffix. -/
inductive IsBound : List Lexeme → FloatType × Scalar → Prop where
  | float (text : String) (l : Location) : IsBound [⟨.float text, l⟩] (number text)
  | infinity (text : String) (l : Location) : IsBound [⟨.infinity text, l⟩] (infinity text)
  | integer {text : String} (h : intSuffix text = "") (l : Location) :
      IsBound [⟨.integer text, l⟩] (.double, .number text)

/-- An optional decoration. -/
inductive IsDecoration : List Lexeme → Option Decoration → Prop where
  | none : IsDecoration [] none
  | some (d : Decoration) (l l' : Location) :
      IsDecoration [⟨.punct .underscore, l⟩, ⟨.decoration d, l'⟩] (some d)

/-- An interval. Only `entire` and an interval with bounds can be decorated, and the two bounds have
one type. -/
inductive IsInterval : List Lexeme → Interval → Prop where
  | nai (text : String) (l l' l'' : Location) :
      IsInterval [⟨.punct .openBracket, l⟩, ⟨.special .nai text, l'⟩, ⟨.punct .closeBracket, l''⟩]
        (.special .nai (specialType text SpecialKind.nai.word) none)
  | empty (text : String) (l l' l'' : Location) :
      IsInterval [⟨.punct .openBracket, l⟩, ⟨.special .empty text, l'⟩, ⟨.punct .closeBracket, l''⟩]
        (.special .empty (specialType text SpecialKind.empty.word) none)
  | entire (text : String) (l l' l'' : Location) {ds : List Lexeme} {d : Option Decoration}
      (hd : IsDecoration ds d) :
      IsInterval
        (⟨.punct .openBracket, l⟩ :: ⟨.special .entire text, l'⟩ ::
          ⟨.punct .closeBracket, l''⟩ :: ds)
        (.special .entire (specialType text SpecialKind.entire.word) d)
  | infSup (l l' l'' : Location) {is ss ds : List Lexeme} {type : FloatType} {inf sup : Scalar}
      {d : Option Decoration} (hi : IsBound is (type, inf)) (hs : IsBound ss (type, sup))
      (hd : IsDecoration ds d) :
      IsInterval (⟨.punct .openBracket, l⟩ :: (is ++ ⟨.punct .comma, l'⟩ ::
        (ss ++ ⟨.punct .closeBracket, l''⟩ :: ds))) (.infSup type inf sup d)

/-- A literal. -/
inductive IsLiteral : List Lexeme → Literal → Prop where
  | integer (text : String) (l : Location) :
      IsLiteral [⟨.integer text, l⟩]
        (.integer text (IntType.ofSuffix (intSuffix text)).1 (IntType.ofSuffix (intSuffix text)).2)
  | float (text : String) (l : Location) :
      IsLiteral [⟨.float text, l⟩] (.real (number text).1 (number text).2)
  | infinity (text : String) (l : Location) :
      IsLiteral [⟨.infinity text, l⟩] (.real (infinity text).1 (infinity text).2)
  | string (text : String) (l : Location) : IsLiteral [⟨.string text, l⟩] (.string text)
  | boolean (value : Bool) (l : Location) : IsLiteral [⟨.boolean value, l⟩] (.boolean value)
  | overlap (state : Overlap) (l : Location) : IsLiteral [⟨.overlap state, l⟩] (.overlap state)
  | interval {ts : List Lexeme} {i : Interval} (h : IsInterval ts i) : IsLiteral ts (.interval i)

/-- Optional tightest outputs: `=` and at least one literal. -/
inductive IsTightest : List Lexeme → Option (List Literal) → Prop where
  | none : IsTightest [] none
  | some (l : Location) {ts : List Lexeme} {os : List Literal} (h : Many IsLiteral ts os)
      (hne : os ≠ []) : IsTightest (⟨.punct .equals, l⟩ :: ts) (some os)

/-- Optional accurate outputs: `<`, `=` and at least one literal. -/
inductive IsAccurate : List Lexeme → Option (List Literal) → Prop where
  | none : IsAccurate [] none
  | some (l l' : Location) {ts : List Lexeme} {os : List Literal} (h : Many IsLiteral ts os)
      (hne : os ≠ []) : IsAccurate (⟨.punct .less, l⟩ :: ⟨.punct .equals, l'⟩ :: ts) (some os)

/-- The name of an operation: an identifier, or the bare word `inf`. -/
inductive IsOperation : Token → String → Prop where
  | identifier (name : String) : IsOperation (.identifier name) name
  | inf : IsOperation (.infinity "inf") "inf"

/-- A test with its comments. It has tightest outputs, accurate outputs, or both. -/
inductive IsTest : List Lexeme → Test → Prop where
  | mk {cs is os as : List Lexeme} {t : Token} {comments : List Comment} {operation : String}
      {inputs : List Literal} {tightest accurate : Option (List Literal)} {outputs : Outputs}
      (location l : Location) (hc : Many IsComment cs comments) (ho : IsOperation t operation)
      (hi : Many IsLiteral is inputs) (ht : IsTightest os tightest) (ha : IsAccurate as accurate)
      (hout : Outputs.ofParts? tightest accurate = some outputs) :
      IsTest (cs ++ ⟨t, location⟩ :: (is ++ (os ++ (as ++ [⟨.punct .semicolon, l⟩]))))
        ⟨operation, inputs, outputs, comments, location⟩

/-- A name: identifiers with dots between them. -/
inductive IsName : List Lexeme → List String → Prop where
  | last (part : String) (l : Location) : IsName [⟨.identifier part, l⟩] [part]
  | cons (part : String) (l l' : Location) {ts : List Lexeme} {parts : List String}
      (h : IsName ts parts) :
      IsName (⟨.identifier part, l⟩ :: ⟨.punct .dot, l'⟩ :: ts) (part :: parts)

/-- A testcase with at least one test, behind the comments that it is given. -/
inductive IsTestcase (comments : List Comment) : List Lexeme → Testcase → Prop where
  | mk {ns ts : List Lexeme} {name : List String} {tests : List Test} (location l l' : Location)
      (hn : IsName ns name) (ht : Many IsTest ts tests) (hne : tests ≠ []) :
      IsTestcase comments (⟨.testcase, location⟩ :: (ns ++ ⟨.punct .openBrace, l⟩ ::
        (ts ++ [⟨.punct .closeBrace, l'⟩]))) ⟨name, tests, comments, location⟩

/-- A testcase behind its own comments. -/
inductive IsCommentedTestcase : List Lexeme → Testcase → Prop where
  | mk {cs ts : List Lexeme} {comments : List Comment} {t : Testcase}
      (hc : Many IsComment cs comments) (ht : IsTestcase comments ts t) :
      IsCommentedTestcase (cs ++ ts) t

/-- A document: at least one testcase, and the end of file. Its first comment is its own, and the
other comments in front of the first testcase are those of the testcase. -/
inductive IsDocument (fileName : String) : List Lexeme → Document → Prop where
  | mk {cs ts us : List Lexeme} {leading : List Comment} {first : Testcase}
      {others : List Testcase} (l : Location) (hc : Many IsComment cs leading)
      (ht : IsTestcase (leading.drop 1) ts first) (ho : Many IsCommentedTestcase us others) :
      IsDocument fileName (cs ++ (ts ++ (us ++ [⟨.endOfFile, l⟩])))
        ⟨fileName, leading.head?, first :: others⟩

end IntervalSuite.Itl.Grammar

namespace IntervalSuite.Itl

open Grammar

/-! ## What a document keeps -/

/-- A part of a document that one token gives. -/
inductive Atom where
  | comment (comment : Comment)
  | name (text : String)
  | number (text : String)
  | infinity (type : FloatType) (sign : Sign)
  | string (text : String)
  | boolean (value : Bool)
  | overlap (state : Overlap)
  | special (kind : SpecialKind) (type : FloatType)
  | decoration (decoration : Decoration)
  deriving DecidableEq, Repr

/-- A floating constant or an infinity of a format. -/
def Scalar.atom (type : FloatType) : Scalar → Atom
  | number text => .number text
  | infinity sign => .infinity type sign

/-- A word; the bare word `inf` is the infinity, also where it names an operation. -/
def Atom.ofWord (word : String) : Atom :=
  if word = "inf" then .infinity .double .plus else .name word

/-- What a document keeps of a lexeme: nothing of the end of file, of the word `testcase` and of
punctuation. -/
def Lexeme.atom? : Lexeme → Option Atom
  | ⟨.comment style text, location⟩ => some (.comment ⟨style, text, location⟩)
  | ⟨.identifier name, _⟩ => some (.ofWord name)
  | ⟨.integer text, _⟩ => some (.number text)
  | ⟨.float text, _⟩ => some (.number text)
  | ⟨.infinity text, _⟩ => some ((Parser.infinity text).2.atom (Parser.infinity text).1)
  | ⟨.special kind text, _⟩ => some (.special kind (Parser.specialType text kind.word))
  | ⟨.string text, _⟩ => some (.string text)
  | ⟨.boolean value, _⟩ => some (.boolean value)
  | ⟨.overlap state, _⟩ => some (.overlap state)
  | ⟨.decoration d, _⟩ => some (.decoration d)
  | ⟨.testcase, _⟩ | ⟨.punct _, _⟩ | ⟨.endOfFile, _⟩ => none

@[simp] theorem Lexeme.atom?_punct (p : Punct) (l : Location) : Lexeme.atom? ⟨.punct p, l⟩ = none :=
  rfl

def Interval.atoms : Interval → List Atom
  | infSup type inf sup d => inf.atom type :: sup.atom type :: (d.map .decoration).toList
  | special kind type d => .special kind type :: (d.map .decoration).toList

def Literal.atoms : Literal → List Atom
  | integer text _ _ => [.number text]
  | real type value => [value.atom type]
  | string text => [.string text]
  | boolean value => [.boolean value]
  | overlap state => [.overlap state]
  | interval value => value.atoms

/-- The tightest outputs stand in front of the accurate ones. -/
def Outputs.atoms (o : Outputs) : List Atom :=
  (o.tightest?.getD [] ++ o.accurate?.getD []).flatMap Literal.atoms

def Test.atoms (t : Test) : List Atom :=
  t.comments.map .comment ++
    .ofWord t.operation :: (t.inputs.flatMap Literal.atoms ++ t.outputs.atoms)

def Testcase.atoms (t : Testcase) : List Atom :=
  t.comments.map .comment ++ (t.name.map .ofWord ++ t.tests.flatMap Test.atoms)

/-- All that a document keeps, in its order. -/
def Document.atoms (d : Document) : List Atom :=
  (d.comment.map .comment).toList ++ d.testcases.flatMap Testcase.atoms

namespace Grammar

theorem Many.atoms_eq {α : Type} {R : List Lexeme → α → Prop} {us : List Lexeme} {as : List α}
    (h : Many R us as) {f : α → List Atom} (hR : ∀ us a, R us a → us.filterMap Lexeme.atom? = f a) :
    us.filterMap Lexeme.atom? = as.flatMap f := by
  induction h with
  | nil => rfl
  | cons h _ ih => rw [List.filterMap_append, hR _ _ h, ih, List.flatMap_cons]

theorem Many.comment_atoms_eq {us : List Lexeme} {cs : List Comment} (h : Many IsComment us cs) :
    us.filterMap Lexeme.atom? = cs.map .comment := by
  rw [h.atoms_eq (f := fun c => [.comment c]), ← List.map_eq_flatMap]
  rintro _ _ ⟨⟩
  rfl

theorem IsBound.atoms_eq {us : List Lexeme} {type : FloatType} {s : Scalar}
    (h : IsBound us (type, s)) : us.filterMap Lexeme.atom? = [s.atom type] := by
  cases h <;> rfl

theorem IsDecoration.atoms_eq {us : List Lexeme} {d : Option Decoration} (h : IsDecoration us d) :
    us.filterMap Lexeme.atom? = (d.map Atom.decoration).toList := by
  cases h <;> rfl

theorem IsInterval.atoms_eq {us : List Lexeme} {i : Interval} (h : IsInterval us i) :
    us.filterMap Lexeme.atom? = i.atoms := by
  cases h with
  | nai | empty => rfl
  | entire _ _ _ _ hd =>
    simp [List.filterMap_cons, Lexeme.atom?, Interval.atoms, hd.atoms_eq]
  | infSup _ _ _ hi hs hd =>
    simp [List.filterMap_cons, Lexeme.atom?, Interval.atoms, hi.atoms_eq, hs.atoms_eq, hd.atoms_eq]

theorem IsLiteral.atoms_eq {us : List Lexeme} {a : Literal} (h : IsLiteral us a) :
    us.filterMap Lexeme.atom? = a.atoms := by
  cases h with
  | interval hi => exact hi.atoms_eq
  | _ => rfl

theorem IsTightest.atoms_eq {us : List Lexeme} {os : Option (List Literal)} (h : IsTightest us os) :
    us.filterMap Lexeme.atom? = (os.getD []).flatMap Literal.atoms := by
  cases h with
  | none => rfl
  | some _ h => exact h.atoms_eq fun _ _ => IsLiteral.atoms_eq

theorem IsAccurate.atoms_eq {us : List Lexeme} {os : Option (List Literal)} (h : IsAccurate us os) :
    us.filterMap Lexeme.atom? = (os.getD []).flatMap Literal.atoms := by
  cases h with
  | none => rfl
  | some _ _ h => exact h.atoms_eq fun _ _ => IsLiteral.atoms_eq

theorem IsOperation.atom?_eq {t : Token} {name : String} (h : IsOperation t name) (l : Location) :
    Lexeme.atom? ⟨t, l⟩ = some (.ofWord name) := by
  cases h with
  | identifier => rfl
  | inf => rfl

theorem ofParts?_eq_some_iff {t a : Option (List Literal)} {o : Outputs} :
    Outputs.ofParts? t a = some o ↔ o.tightest? = t ∧ o.accurate? = a := by
  cases o <;> cases t <;> cases a <;>
    simp [Outputs.ofParts?, Outputs.tightest?, Outputs.accurate?, eq_comm]

theorem IsTest.atoms_eq {us : List Lexeme} {t : Test} (h : IsTest us t) :
    us.filterMap Lexeme.atom? = t.atoms := by
  obtain ⟨location, l, hc, ho, hi, ht, ha, hout⟩ := h
  obtain ⟨rfl, rfl⟩ := ofParts?_eq_some_iff.mp hout
  rw [Test.atoms, Outputs.atoms, List.flatMap_append, ← ht.atoms_eq, ← ha.atoms_eq,
    ← hc.comment_atoms_eq, ← hi.atoms_eq fun _ _ => IsLiteral.atoms_eq]
  simp [List.filterMap_cons, ho.atom?_eq]

theorem IsName.atoms_eq {us : List Lexeme} {parts : List String} (h : IsName us parts) :
    us.filterMap Lexeme.atom? = parts.map .ofWord := by
  induction h with
  | last => rfl
  | cons part l l' _ ih => simp [List.filterMap_cons, Lexeme.atom?, ih]

theorem IsTestcase.atoms_eq {comments : List Comment} {us : List Lexeme} {t : Testcase}
    (h : IsTestcase comments us t) :
    comments.map .comment ++ us.filterMap Lexeme.atom? = t.atoms := by
  obtain ⟨location, l, l', hn, ht, -⟩ := h
  rw [Testcase.atoms, ← hn.atoms_eq, ← ht.atoms_eq fun _ _ => IsTest.atoms_eq]
  simp [List.filterMap_cons, Lexeme.atom?]

theorem IsCommentedTestcase.atoms_eq {us : List Lexeme} {t : Testcase}
    (h : IsCommentedTestcase us t) : us.filterMap Lexeme.atom? = t.atoms := by
  obtain ⟨hc, ht⟩ := h
  rw [List.filterMap_append, hc.comment_atoms_eq, ht.atoms_eq]

/-- A document keeps of its lexemes everything that they give, once and in their order. -/
theorem IsDocument.atoms_eq {fileName : String} {us : List Lexeme} {d : Document}
    (h : IsDocument fileName us d) : us.filterMap Lexeme.atom? = d.atoms := by
  obtain ⟨l, hc, ht, ho⟩ := h
  rename_i leading first others
  have hleading : leading.map Atom.comment =
      (leading.head?.map Atom.comment).toList ++ (leading.drop 1).map .comment := by
    cases leading <;> rfl
  rw [Document.atoms, List.flatMap_cons, ← ht.atoms_eq,
    ← ho.atoms_eq fun _ _ => IsCommentedTestcase.atoms_eq]
  rw [List.filterMap_append, hc.comment_atoms_eq, hleading]
  simp [Lexeme.atom?]

end Grammar

end IntervalSuite.Itl
