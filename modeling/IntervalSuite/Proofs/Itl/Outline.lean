import IntervalSuite.Proofs.Itl.Grammar
import IntervalSuite.Proofs.Itl.Printing
import Mathlib.Computability.Language

/-!
# The outline of documents

Which lists of tokens the grammar derives if the types of the bounds of an interval do not matter.
Without that condition the grammar is regular, so its nonterminals are regular expressions over
tokens. `Mismatch` is the condition that is left out: an interval with bounds of different types.

A parser that looks one token ahead needs to know with which tokens a phrase can start (`StartsIn`),
and that the tokens which it has accepted are the start of a phrase (`Viable`). What is missing
behind them is made of tokens that can be written down, so that some source text spells the whole.
-/

namespace IntervalSuite.Itl.Outline

open scoped Computability
open Itl.Parser (intSuffix)

/-! ## Kinds of tokens -/

def isComment : Token → Bool
  | .comment _ _ => true
  | _ => false

def isIdentifier : Token → Bool
  | .identifier _ => true
  | _ => false

def isDecoration : Token → Bool
  | .decoration _ => true
  | _ => false

/-- A bound of an interval: a floating constant, an infinity, or an integer without a suffix. -/
def isBound : Token → Bool
  | .float _ | .infinity _ => true
  | .integer text => intSuffix text = ""
  | _ => false

/-- The word of an interval without bounds that can not be decorated. -/
def isUndecorated : Token → Bool
  | .special kind _ => kind ≠ .entire
  | _ => false

/-- The word of an interval without bounds that can be decorated. -/
def isEntire : Token → Bool
  | .special kind _ => kind = .entire
  | _ => false

/-- A literal of one token. -/
def isPlain : Token → Bool
  | .integer _ | .float _ | .infinity _ | .string _ | .boolean _ | .overlap _ => true
  | _ => false

/-- The name of an operation: an identifier, or the bare word `inf`. -/
def isOperation : Token → Bool
  | .identifier _ => true
  | .infinity text => text = "inf"
  | _ => false

/-! ## The regular expressions -/

/-- One token of a kind. -/
def oneOf (kind : Token → Bool) : Language Token := {w | ∃ t, kind t = true ∧ w = [t]}

/-- The token `t`. -/
def tok (t : Token) : Language Token := oneOf (· = t)

def comments : Language Token := (oneOf isComment)∗

def bound : Language Token := oneOf isBound

def decoration : Language Token := 1 + tok (.punct .underscore) * oneOf isDecoration

/-- An interval with bounds, behind its opening bracket; the types of the bounds are free. -/
def bounds : Language Token :=
  bound * (tok (.punct .comma) * (bound * (tok (.punct .closeBracket) * decoration)))

def undecorated : Language Token := oneOf isUndecorated * tok (.punct .closeBracket)

def entire : Language Token := oneOf isEntire * (tok (.punct .closeBracket) * decoration)

def interval : Language Token := tok (.punct .openBracket) * (undecorated + (entire + bounds))

def literal : Language Token := oneOf isPlain + interval

def literals : Language Token := literal * literal∗

def tightest : Language Token := tok (.punct .equals) * literals

def accurate : Language Token := tok (.punct .less) * (tok (.punct .equals) * literals)

/-- Tightest outputs, accurate outputs, or both. -/
def outputs : Language Token := tightest * (1 + accurate) + accurate

def test : Language Token :=
  comments * (oneOf isOperation * (literal∗ * (outputs * tok (.punct .semicolon))))

def name : Language Token :=
  oneOf isIdentifier * (tok (.punct .dot) * oneOf isIdentifier)∗

def testcase : Language Token :=
  tok .testcase * (name * (tok (.punct .openBrace) * (test * test∗ * tok (.punct .closeBrace))))

/-- A testcase behind its comments. -/
def commentedTestcase : Language Token := comments * testcase

/-- A document without the end of file. -/
def body : Language Token := comments * (testcase * commentedTestcase∗)

def document : Language Token := body * tok .endOfFile

/-! ## Intervals that do not fit -/

/-- An interval up to its closing bracket, where the bounds have the different types `a` and `b`. -/
inductive Mismatch : List Lexeme → FloatType → FloatType → Prop where
  | mk (l l' l'' : Location) {inf sup : Lexeme} {a b : FloatType} {s s' : Scalar}
      (hi : Grammar.IsBound [inf] (a, s)) (hs : Grammar.IsBound [sup] (b, s')) (hne : a ≠ b) :
      Mismatch [⟨.punct .openBracket, l⟩, inf, ⟨.punct .comma, l'⟩, sup, ⟨.punct .closeBracket, l''⟩]
        a b

theorem Mismatch.exists_cons {i : List Lexeme} {a b : FloatType} (h : Mismatch i a b) :
    ∃ l is, i = l :: is := by
  cases h
  exact ⟨_, _, rfl⟩

/-- Such an interval stands at the start of the lexemes. -/
def Mismatched (ts : List Lexeme) : Prop := ∃ i a b, Mismatch i a b ∧ i <+: ts

/-- No such interval starts among the lexemes `us` in front of `rest`. -/
def Clean : List Lexeme → List Lexeme → Prop
  | [], _ => True
  | l :: us, rest => ¬ Mismatched (l :: (us ++ rest)) ∧ Clean us rest

theorem not_mismatched_of_ne {l : Lexeme} (h : l.token ≠ .punct .openBracket)
    (rest : List Lexeme) : ¬ Mismatched (l :: rest) := by
  rintro ⟨_, _, _, ⟨⟩, ⟨_, heq⟩⟩
  cases heq
  exact h rfl

theorem clean_append {us vs rest : List Lexeme} :
    Clean (us ++ vs) rest ↔ Clean us (vs ++ rest) ∧ Clean vs rest := by
  induction us with
  | nil => simp [Clean]
  | cons l us ih => simp [Clean, ih, and_assoc]

/-! ## The tokens with which a phrase starts -/

/-- The words of the language are not empty, and `F` holds of their first tokens. -/
def StartsIn (F : Token → Prop) (L : Language Token) : Prop := ∀ w ∈ L, ∃ t v, w = t :: v ∧ F t

namespace StartsIn

variable {F G : Token → Prop} {L M : Language Token}

theorem mono (h : StartsIn F L) (hFG : ∀ t, F t → G t) : StartsIn G L := by
  intro w hw
  obtain ⟨t, v, rfl, ht⟩ := h w hw
  exact ⟨t, v, rfl, hFG t ht⟩

theorem head {t : Token} {v : List Token} (h : StartsIn F L) (hw : t :: v ∈ L) : F t := by
  obtain ⟨t, v, ⟨⟩, ht⟩ := h _ hw
  exact ht

theorem oneOf {kind : Token → Bool} (h : ∀ t, kind t = true → F t) :
    StartsIn F (Outline.oneOf kind) := by
  rintro _ ⟨t, ht, rfl⟩
  exact ⟨t, [], rfl, h t ht⟩

theorem tok {t : Token} (h : F t) : StartsIn F (Outline.tok t) :=
  oneOf fun _ hu => of_decide_eq_true hu ▸ h

theorem add (hL : StartsIn F L) (hM : StartsIn F M) : StartsIn F (L + M) := by
  rintro w (hw | hw)
  · exact hL w hw
  · exact hM w hw

theorem mul (h : StartsIn F L) (M : Language Token) : StartsIn F (L * M) := by
  intro w hw
  obtain ⟨a, ha, b, -, rfl⟩ := Language.mem_mul.mp hw
  obtain ⟨t, v, rfl, ht⟩ := h a ha
  exact ⟨t, v ++ b, rfl, ht⟩

theorem mul_any (h : StartsIn F M) (L : Language Token) : StartsIn (fun _ => True) (L * M) := by
  intro w hw
  obtain ⟨a, -, b, hb, rfl⟩ := Language.mem_mul.mp hw
  obtain ⟨t, v, rfl, -⟩ := h b hb
  cases a with
  | nil => exact ⟨t, v, rfl, trivial⟩
  | cons u a => exact ⟨u, a ++ t :: v, rfl, trivial⟩

/-- Behind an optional phrase, either the phrase starts or what follows it. -/
theorem option_mul (hL : StartsIn F L) (hM : StartsIn F M) : StartsIn F ((1 + L) * M) := by
  rw [add_mul, one_mul]
  exact hM.add (hL.mul M)

theorem star_mul (hL : StartsIn F L) (hM : StartsIn F M) : StartsIn F (L∗ * M) := by
  rw [← Language.one_add_self_mul_kstar_eq_kstar]
  exact (hL.mul L∗).option_mul hM

end StartsIn

theorem startsIn_tok (t : Token) : StartsIn (· = t) (tok t) := .tok rfl

/-! ## Starts of phrases -/

/-- The tokens are the start of a phrase whose other tokens can be written down. -/
def Viable (L : Language Token) (ts : List Token) : Prop := ∃ vs, AllSpelled vs ∧ ts ++ vs ∈ L

namespace Viable

variable {L M : Language Token} {ts us : List Token}

theorem mono (h : Viable L ts) (hLM : ∀ w ∈ L, w ∈ M) : Viable M ts := by
  obtain ⟨vs, hvs, hmem⟩ := h
  exact ⟨vs, hvs, hLM _ hmem⟩

theorem append (hts : ts ∈ L) (hus : Viable M us) : Viable (L * M) (ts ++ us) := by
  obtain ⟨vs, hvs, hmem⟩ := hus
  exact ⟨vs, hvs, by simpa using Language.append_mem_mul hts hmem⟩

theorem mul (hts : Viable L ts) (hM : Viable M []) : Viable (L * M) ts := by
  obtain ⟨vs, hvs, hL⟩ := hts
  obtain ⟨ws, hws, hM⟩ := hM
  exact ⟨vs ++ ws, allSpelled_append.mpr ⟨hvs, hws⟩, by
    simpa using Language.append_mem_mul hL hM⟩

theorem oneOf {kind : Token → Bool} {t : Token} (h : kind t = true) (ht : t.Spelled) :
    Viable (Outline.oneOf kind) [] :=
  ⟨[t], by simpa using ht, t, h, rfl⟩

theorem tok {t : Token} (ht : t.Spelled) : Viable (Outline.tok t) [] :=
  oneOf (decide_eq_true rfl) ht

theorem star (L : Language Token) : Viable L∗ [] :=
  ⟨[], allSpelled_nil, Language.nil_mem_kstar L⟩

theorem option (L : Language Token) : Viable (1 + L) [] :=
  ⟨[], allSpelled_nil, .inl rfl⟩

end Viable

theorem spelled_integer : (Token.integer "1").Spelled := by
  have hscan : Scan '1' [] (numberToken [] ['1']) := .number rfl
  exact Token.spelled_of_fits ⟨'1', [], rfl, hscan⟩

theorem spelled_identifier : (Token.identifier "f").Spelled :=
  Token.spelled_of_word rfl rfl rfl (by decide)

theorem viable_punct (p : Punct) : Viable (tok (.punct p)) [] := .tok (Token.spelled_punct p)

end IntervalSuite.Itl.Outline
