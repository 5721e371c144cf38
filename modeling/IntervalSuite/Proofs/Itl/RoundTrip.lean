import IntervalSuite.Proofs.Itl.Parsing
import IntervalSuite.Proofs.Itl.Printing

/-!
# Parsing undoes printing

A document that a source gives is well formed, since its texts are the tokens of the source. The other
way round, the tokens of a well-formed document are derived by the grammar wherever they stand, and
they are read back from their spellings.

* `IsDocument.wellFormed`: what the grammar derives from tokens is well formed.
* `exists_isDocument`: the grammar derives a well-formed document from its own tokens.
* `parseDocument_print`: parsing undoes printing, on exactly the documents that can be parsed.
-/

namespace IntervalSuite.Itl

open Grammar

/-! ## The document of a source is well formed -/

namespace Grammar

theorem Many.forall_wellFormed {α : Type} {R : List Lexeme → α → Prop} {us : List Lexeme}
    {as : List α} (h : Many R us as) (hus : AllSpelled (us.map Lexeme.token)) {P : α → Prop}
    (hR : ∀ us a, R us a → AllSpelled (us.map Lexeme.token) → P a) : ∀ a ∈ as, P a := by
  induction h with
  | nil => simp
  | cons h _ ih =>
    rw [List.map_append, allSpelled_append] at hus
    exact List.forall_mem_cons.mpr ⟨hR _ _ h hus.1, ih hus.2⟩

theorem IsComment.wellFormed {us : List Lexeme} {c : Comment} (h : IsComment us c)
    (hus : AllSpelled (us.map Lexeme.token)) : c.WellFormed := by
  obtain ⟨style, text, location⟩ := h
  exact (allSpelled_cons.mp hus).1

theorem IsBound.isBoundOf {us : List Lexeme} {type : FloatType} {s : Scalar}
    (h : IsBound us (type, s)) (hus : AllSpelled (us.map Lexeme.token)) : s.IsBoundOf type := by
  cases h with
  | float text l => exact .inl ⟨(allSpelled_cons.mp hus).1, rfl⟩
  | infinity text l => trivial
  | integer hs l => exact .inr ⟨(allSpelled_cons.mp hus).1, hs, rfl⟩

theorem IsInterval.wellFormed {us : List Lexeme} {i : Interval} (h : IsInterval us i)
    (hus : AllSpelled (us.map Lexeme.token)) : i.WellFormed := by
  cases h with
  | nai | empty => exact .inr rfl
  | entire => exact .inl rfl
  | infSup l l' l'' hi hs hd =>
    simp only [List.map_append, List.map_cons, allSpelled_append, allSpelled_cons] at hus
    exact ⟨hi.isBoundOf hus.2.1, hs.isBoundOf hus.2.2.2.1⟩

theorem IsLiteral.wellFormed {us : List Lexeme} {a : Literal} (h : IsLiteral us a)
    (hus : AllSpelled (us.map Lexeme.token)) : a.WellFormed := by
  cases h with
  | integer => exact ⟨(allSpelled_cons.mp hus).1, by simp⟩
  | float => exact ⟨(allSpelled_cons.mp hus).1, rfl⟩
  | string => exact (allSpelled_cons.mp hus).1
  | interval hi => exact hi.wellFormed hus
  | infinity | boolean | overlap => trivial

theorem IsTightest.wellFormed {us : List Lexeme} {o : Option (List Literal)} (h : IsTightest us o)
    (hus : AllSpelled (us.map Lexeme.token)) : ∀ os ∈ o, os ≠ [] ∧ ∀ a ∈ os, a.WellFormed := by
  cases h with
  | none => simp
  | some l h hne =>
    rintro _ ⟨⟩
    exact ⟨hne, h.forall_wellFormed (allSpelled_cons.mp hus).2 fun _ _ => IsLiteral.wellFormed⟩

theorem IsAccurate.wellFormed {us : List Lexeme} {o : Option (List Literal)} (h : IsAccurate us o)
    (hus : AllSpelled (us.map Lexeme.token)) : ∀ os ∈ o, os ≠ [] ∧ ∀ a ∈ os, a.WellFormed := by
  cases h with
  | none => simp
  | some l l' h hne =>
    rintro _ ⟨⟩
    simp only [List.map_cons, allSpelled_cons] at hus
    exact ⟨hne, h.forall_wellFormed hus.2.2 fun _ _ => IsLiteral.wellFormed⟩

theorem IsOperation.wellFormed {t : Token} {name : String} (h : IsOperation t name)
    (ht : t.Spelled) : name = "inf" ∨ (Token.identifier name).Spelled := by
  cases h with
  | identifier => exact .inr ht
  | inf => exact .inl rfl

theorem IsTest.wellFormed {us : List Lexeme} {t : Test} (h : IsTest us t)
    (hus : AllSpelled (us.map Lexeme.token)) : t.WellFormed := by
  obtain ⟨location, l, hc, ho, hi, ht, ha, hout⟩ := h
  simp only [List.map_append, List.map_cons, allSpelled_append, allSpelled_cons] at hus
  obtain ⟨hcs, hop, his, hos, has, -⟩ := hus
  obtain ⟨rfl, rfl⟩ := ofParts?_eq_some_iff.mp hout
  refine ⟨hc.forall_wellFormed hcs fun _ _ => IsComment.wellFormed, ho.wellFormed hop,
    hi.forall_wellFormed his fun _ _ => IsLiteral.wellFormed, ht.wellFormed hos, ha.wellFormed has⟩

theorem IsName.wellFormed {us : List Lexeme} {name : List String} (h : IsName us name)
    (hus : AllSpelled (us.map Lexeme.token)) :
    name ≠ [] ∧ ∀ part ∈ name, (Token.identifier part).Spelled := by
  induction h with
  | last part l => simpa using hus
  | cons part l l' _ ih =>
    simp only [List.map_cons, allSpelled_cons] at hus
    exact ⟨by simp, List.forall_mem_cons.mpr ⟨hus.1, (ih hus.2.2).2⟩⟩

theorem IsTestcase.wellFormed {cs : List Comment} {us : List Lexeme} {t : Testcase}
    (h : IsTestcase cs us t) (hcs : ∀ c ∈ cs, c.WellFormed)
    (hus : AllSpelled (us.map Lexeme.token)) :
    t.WellFormed := by
  obtain ⟨location, l, l', hn, ht, hne⟩ := h
  simp only [List.map_append, List.map_cons, allSpelled_append, allSpelled_cons] at hus
  obtain ⟨-, hns, -, hts, -⟩ := hus
  obtain ⟨hname, hparts⟩ := hn.wellFormed hns
  exact ⟨hcs, hname, hparts, hne, ht.forall_wellFormed hts fun _ _ => IsTest.wellFormed⟩

theorem IsCommentedTestcase.wellFormed {us : List Lexeme} {t : Testcase}
    (h : IsCommentedTestcase us t) (hus : AllSpelled (us.map Lexeme.token)) : t.WellFormed := by
  obtain ⟨hc, ht⟩ := h
  rw [List.map_append, allSpelled_append] at hus
  exact ht.wellFormed (hc.forall_wellFormed hus.1 fun _ _ => IsComment.wellFormed) hus.2

/-- What the grammar derives from tokens is well formed. -/
theorem IsDocument.wellFormed {fileName : String} {us : List Lexeme} {d : Document}
    (h : IsDocument fileName us d) (hus : AllSpelled (us.dropLast.map Lexeme.token)) :
    d.WellFormed := by
  obtain ⟨l, hc, ht, ho⟩ := h
  rename_i cs ts us leading first others
  have hdrop : (cs ++ (ts ++ (us ++ [(⟨.endOfFile, l⟩ : Lexeme)]))).dropLast =
      cs ++ (ts ++ us) := by
    rw [← List.append_assoc ts, ← List.append_assoc cs, List.dropLast_concat]
  rw [hdrop] at hus
  simp only [List.map_append, allSpelled_append] at hus
  have hleading := hc.forall_wellFormed hus.1 fun _ _ => IsComment.wellFormed
  have hfirst := ht.wellFormed (fun c hc => hleading c (List.mem_of_mem_drop hc)) hus.2.1
  have hothers := ho.forall_wellFormed hus.2.2 fun _ _ => IsCommentedTestcase.wellFormed
  refine ⟨by simp, ?_, ?_, List.forall_mem_cons.mpr ⟨hfirst, hothers⟩⟩
  · -- Without a document comment there is no leading comment at all.
    intro hnone t hmem
    obtain rfl : first = t := by simpa using hmem
    obtain rfl : leading = [] := List.head?_eq_none_iff.mp hnone
    cases ht
    rfl
  · intro c hmem
    exact hleading c (List.mem_of_mem_head? hmem)

end Grammar

/-! ## The tokens of a well-formed document are single tokens -/

theorem Token.spelled_ofOperation {name : String}
    (h : name = "inf" ∨ (Token.identifier name).Spelled) : (Token.ofOperation name).Spelled := by
  unfold Token.ofOperation
  split
  · rename_i hinf
    subst hinf
    exact Token.spelled_ofInfinity .double .plus
  · rename_i hinf
    exact h.resolve_left hinf

/-- A text that is an integer is no floating constant. -/
theorem Token.ofNumber_integer {text : String} (h : (Token.integer text).Spelled) :
    Token.ofNumber text = .integer text := by
  unfold Token.ofNumber
  rw [if_neg]
  intro hfloat
  have heq : [Piece.token (.integer text)] = [.token (.float text)] := h.symm.trans hfloat
  cases heq

theorem Scalar.IsBoundOf.spelled {type : FloatType} {s : Scalar} (h : s.IsBoundOf type) :
    (s.boundToken type).Spelled := by
  cases s with
  | infinity sign => exact Token.spelled_ofInfinity type sign
  | number text =>
    rcases h with ⟨hfloat, -⟩ | ⟨hint, -⟩
    · simp [Scalar.boundToken, Token.ofNumber, hfloat]
    · rwa [Scalar.boundToken, Token.ofNumber_integer hint]

@[simp] theorem allSpelled_decorationTokens (d : Option Decoration) :
    AllSpelled (decorationTokens d) := by
  cases d <;> simp [decorationTokens]

theorem Interval.WellFormed.allSpelled {i : Interval} (h : i.WellFormed) : AllSpelled i.tokens := by
  cases i with
  | infSup type inf sup d => simp [Interval.tokens, h.1.spelled, h.2.spelled]
  | special kind type d => simp [Interval.tokens]

theorem Literal.WellFormed.allSpelled {a : Literal} (h : a.WellFormed) : AllSpelled a.tokens := by
  cases a with
  | integer => exact allSpelled_cons.mpr ⟨h.1, allSpelled_nil⟩
  | real type s =>
    cases s with
    | number text => exact allSpelled_cons.mpr ⟨h.1, allSpelled_nil⟩
    | infinity => simp [Literal.tokens]
  | string => exact allSpelled_cons.mpr ⟨h, allSpelled_nil⟩
  | boolean | overlap => simp [Literal.tokens]
  | interval i => exact Interval.WellFormed.allSpelled h

theorem allSpelled_literals {as : List Literal} (h : ∀ a ∈ as, a.WellFormed) :
    AllSpelled (as.flatMap Literal.tokens) :=
  allSpelled_flatMap fun a ha => (h a ha).allSpelled

theorem allSpelled_comments {cs : List Comment} (h : ∀ c ∈ cs, c.WellFormed) :
    AllSpelled (cs.map Comment.token) := by
  intro t ht
  obtain ⟨c, hc, rfl⟩ := List.mem_map.mp ht
  exact h c hc

theorem allSpelled_tightestTokens {o : Option (List Literal)}
    (h : ∀ os ∈ o, os ≠ [] ∧ ∀ a ∈ os, a.WellFormed) : AllSpelled (tightestTokens o) := by
  cases o with
  | none => exact allSpelled_nil
  | some os => simp [tightestTokens, allSpelled_literals (h os rfl).2]

theorem allSpelled_accurateTokens {o : Option (List Literal)}
    (h : ∀ os ∈ o, os ≠ [] ∧ ∀ a ∈ os, a.WellFormed) : AllSpelled (accurateTokens o) := by
  cases o with
  | none => exact allSpelled_nil
  | some os => simp [accurateTokens, allSpelled_literals (h os rfl).2]

theorem Test.WellFormed.allSpelled {t : Test} (h : t.WellFormed) : AllSpelled t.tokens := by
  obtain ⟨hc, ho, hi, ht, ha⟩ := h
  simp [Test.tokens, allSpelled_comments hc, Token.spelled_ofOperation ho, allSpelled_literals hi,
    allSpelled_tightestTokens ht, allSpelled_accurateTokens ha]

theorem allSpelled_nameTokens {name : List String}
    (h : ∀ part ∈ name, (Token.identifier part).Spelled) : AllSpelled (nameTokens name) := by
  fun_induction nameTokens name with
  | case1 => exact allSpelled_nil
  | case2 part => simpa using h
  | case3 part next parts ih =>
    rw [List.forall_mem_cons] at h
    simp [h.1, ih h.2]

theorem Testcase.WellFormed.allSpelled {t : Testcase} (h : t.WellFormed) : AllSpelled t.tokens := by
  obtain ⟨hc, -, hn, -, ht⟩ := h
  have htests := allSpelled_flatMap fun t h => (ht t h).allSpelled
  simp [Testcase.tokens, Testcase.bodyTokens, allSpelled_comments hc, allSpelled_nameTokens hn,
    htests]

theorem Document.WellFormed.allSpelled {d : Document} (h : d.WellFormed) : AllSpelled d.tokens := by
  obtain ⟨-, -, hc, ht⟩ := h
  have htestcases := allSpelled_flatMap fun t h => (ht t h).allSpelled
  refine allSpelled_append.mpr ⟨?_, htestcases⟩
  cases hcomment : d.comment with
  | none => exact allSpelled_nil
  | some c => exact allSpelled_cons.mpr ⟨hc c hcomment, allSpelled_nil⟩

/-! ## The grammar derives a document from its tokens -/

/-- The grammar derives the items from their tokens one behind the other, up to what `g` forgets. -/
theorem exists_many {α : Type} {β : Type} {R : List Lexeme → α → Prop} {f : α → List Token}
    {g : α → β} {as : List α}
    (hR : ∀ a ∈ as, ∀ us : List Lexeme, us.map Lexeme.token = f a → ∃ a', R us a' ∧ g a' = g a)
    {us : List Lexeme} (h : us.map Lexeme.token = as.flatMap f) :
    ∃ as', Many R us as' ∧ as'.map g = as.map g := by
  induction as generalizing us with
  | nil =>
    obtain rfl : us = [] := by simpa using h
    exact ⟨[], .nil, rfl⟩
  | cons a as ih =>
    obtain ⟨us, vs, rfl, hus, hvs⟩ := List.map_eq_append_iff.mp h
    obtain ⟨ha, has⟩ := List.forall_mem_cons.mp hR
    obtain ⟨a', hRa, hga⟩ := ha us hus
    obtain ⟨as', hmany, hgas⟩ := ih has hvs
    exact ⟨a' :: as', .cons hRa hmany, by simp [hga, hgas]⟩

theorem exists_lexeme {us : List Lexeme} {t : Token} {ts : List Token}
    (h : us.map Lexeme.token = t :: ts) :
    ∃ l vs, us = ⟨t, l⟩ :: vs ∧ vs.map Lexeme.token = ts := by
  obtain ⟨⟨_, l⟩, vs, rfl, rfl, hvs⟩ := List.map_eq_cons_iff.mp h
  exact ⟨l, vs, rfl, hvs⟩

theorem exists_comments {cs : List Comment} {us : List Lexeme}
    (h : us.map Lexeme.token = cs.map Comment.token) :
    ∃ cs', Many IsComment us cs' ∧ cs'.map Comment.unlocated = cs.map Comment.unlocated := by
  refine exists_many (f := fun c => [c.token]) ?_ (by rw [h, List.map_eq_flatMap])
  intro c _ us hus
  obtain ⟨l, vs, rfl, hvs⟩ := exists_lexeme hus
  obtain rfl := List.map_eq_nil_iff.mp hvs
  exact ⟨⟨c.style, c.text, l⟩, .mk _ _ _, rfl⟩

theorem isDecoration_of_tokens {d : Option Decoration} {us : List Lexeme}
    (h : us.map Lexeme.token = decorationTokens d) : IsDecoration us d := by
  cases d with
  | none =>
    obtain rfl := List.map_eq_nil_iff.mp h
    exact .none
  | some d =>
    obtain ⟨l, us₁, rfl, h₁⟩ := exists_lexeme h
    obtain ⟨l', us₂, rfl, h₂⟩ := exists_lexeme h₁
    obtain rfl := List.map_eq_nil_iff.mp h₂
    exact .some d l l'

theorem infinity_ofInfinity (type : FloatType) (sign : Sign) :
    Parser.infinity (Token.ofInfinity type sign).spelling = (type, .infinity sign) := by
  cases type <;> cases sign <;> rfl

theorem specialType_ofSpecial (kind : SpecialKind) (type : FloatType) :
    Parser.specialType (kind.word ++ type.suffix) kind.word = type := by
  cases kind <;> cases type <;> rfl

theorem Scalar.IsBoundOf.isBound {type : FloatType} {s : Scalar} (h : s.IsBoundOf type)
    (l : Location) : IsBound [⟨s.boundToken type, l⟩] (type, s) := by
  cases s with
  | infinity sign =>
    rw [← infinity_ofInfinity type sign]
    exact .infinity _ l
  | number text =>
    rcases h with ⟨hfloat, rfl⟩ | ⟨hint, hsuffix, rfl⟩
    · rw [Scalar.boundToken, Token.ofNumber, if_pos hfloat]
      exact .float text l
    · rw [Scalar.boundToken, Token.ofNumber_integer hint]
      exact .integer hsuffix l

theorem isInterval_of_tokens {i : Interval} {us : List Lexeme} (hi : i.WellFormed)
    (h : us.map Lexeme.token = i.tokens) : IsInterval us i := by
  cases i with
  | infSup type inf sup d =>
    obtain ⟨l₀, us₁, rfl, h₁⟩ := exists_lexeme h
    obtain ⟨l₁, us₂, rfl, h₂⟩ := exists_lexeme h₁
    obtain ⟨l₂, us₃, rfl, h₃⟩ := exists_lexeme h₂
    obtain ⟨l₃, us₄, rfl, h₄⟩ := exists_lexeme h₃
    obtain ⟨l₄, us₅, rfl, h₅⟩ := exists_lexeme h₄
    exact .infSup l₀ l₂ l₄ (hi.1.isBound l₁) (hi.2.isBound l₃) (isDecoration_of_tokens h₅)
  | special kind type d =>
    obtain ⟨l₀, us₁, rfl, h₁⟩ := exists_lexeme h
    obtain ⟨l₁, us₂, rfl, h₂⟩ := exists_lexeme h₁
    obtain ⟨l₂, us₃, rfl, h₃⟩ := exists_lexeme h₂
    have htype := specialType_ofSpecial kind type
    cases kind with
    | entire =>
      have hentire := IsInterval.entire (SpecialKind.entire.word ++ type.suffix) l₀ l₁ l₂
        (isDecoration_of_tokens h₃)
      rwa [htype] at hentire
    | empty =>
      obtain rfl : d = none := hi.resolve_left (by simp)
      obtain rfl := List.map_eq_nil_iff.mp h₃
      have hempty := IsInterval.empty (SpecialKind.empty.word ++ type.suffix) l₀ l₁ l₂
      rwa [htype] at hempty
    | nai =>
      obtain rfl : d = none := hi.resolve_left (by simp)
      obtain rfl := List.map_eq_nil_iff.mp h₃
      have hnai := IsInterval.nai (SpecialKind.nai.word ++ type.suffix) l₀ l₁ l₂
      rwa [htype] at hnai

theorem isLiteral_of_tokens {a : Literal} {us : List Lexeme} (ha : a.WellFormed)
    (h : us.map Lexeme.token = a.tokens) : IsLiteral us a := by
  cases a with
  | interval i => exact .interval (isInterval_of_tokens ha h)
  | integer text type unsigned =>
    obtain ⟨l, us₁, rfl, h₁⟩ := exists_lexeme h
    obtain rfl := List.map_eq_nil_iff.mp h₁
    have hint := IsLiteral.integer text l
    rwa [ha.2] at hint
  | real type s =>
    cases s with
    | number text =>
      obtain ⟨l, us₁, rfl, h₁⟩ := exists_lexeme h
      obtain rfl := List.map_eq_nil_iff.mp h₁
      obtain ⟨-, rfl⟩ := ha
      exact .float text l
    | infinity sign =>
      obtain ⟨l, us₁, rfl, h₁⟩ := exists_lexeme h
      obtain rfl := List.map_eq_nil_iff.mp h₁
      have hinf := IsLiteral.infinity (Token.ofInfinity type sign).spelling l
      rwa [infinity_ofInfinity] at hinf
  | string text =>
    obtain ⟨l, us₁, rfl, h₁⟩ := exists_lexeme h
    obtain rfl := List.map_eq_nil_iff.mp h₁
    exact .string text l
  | boolean value =>
    obtain ⟨l, us₁, rfl, h₁⟩ := exists_lexeme h
    obtain rfl := List.map_eq_nil_iff.mp h₁
    exact .boolean value l
  | overlap state =>
    obtain ⟨l, us₁, rfl, h₁⟩ := exists_lexeme h
    obtain rfl := List.map_eq_nil_iff.mp h₁
    exact .overlap state l

theorem many_literals {as : List Literal} {us : List Lexeme} (has : ∀ a ∈ as, a.WellFormed)
    (h : us.map Lexeme.token = as.flatMap Literal.tokens) : Many IsLiteral us as := by
  obtain ⟨as', hmany, hmap⟩ := exists_many (g := id)
    (fun a ha us hus => ⟨a, isLiteral_of_tokens (has a ha) hus, rfl⟩) h
  rw [List.map_id, List.map_id] at hmap
  exact hmap ▸ hmany

theorem isTightest_of_tokens {o : Option (List Literal)} {us : List Lexeme}
    (ho : ∀ os ∈ o, os ≠ [] ∧ ∀ a ∈ os, a.WellFormed)
    (h : us.map Lexeme.token = tightestTokens o) : IsTightest us o := by
  cases o with
  | none =>
    obtain rfl := List.map_eq_nil_iff.mp h
    exact .none
  | some os =>
    obtain ⟨l, us₁, rfl, h₁⟩ := exists_lexeme h
    obtain ⟨hne, hos⟩ := ho os rfl
    exact .some l (many_literals hos h₁) hne

theorem isAccurate_of_tokens {o : Option (List Literal)} {us : List Lexeme}
    (ho : ∀ os ∈ o, os ≠ [] ∧ ∀ a ∈ os, a.WellFormed)
    (h : us.map Lexeme.token = accurateTokens o) : IsAccurate us o := by
  cases o with
  | none =>
    obtain rfl := List.map_eq_nil_iff.mp h
    exact .none
  | some os =>
    obtain ⟨l, us₁, rfl, h₁⟩ := exists_lexeme h
    obtain ⟨l', us₂, rfl, h₂⟩ := exists_lexeme h₁
    obtain ⟨hne, hos⟩ := ho os rfl
    exact .some l l' (many_literals hos h₂) hne

theorem isOperation_ofOperation (name : String) : IsOperation (Token.ofOperation name) name := by
  unfold Token.ofOperation
  split
  · rename_i hinf
    subst hinf
    exact .inf
  · exact .identifier name

theorem exists_isTest {t : Test} {us : List Lexeme} (ht : t.WellFormed)
    (h : us.map Lexeme.token = t.tokens) : ∃ t', IsTest us t' ∧ t'.unlocated = t.unlocated := by
  obtain ⟨-, -, hi, htight, hacc⟩ := ht
  obtain ⟨cs, us₁, rfl, hcs, h₁⟩ := List.map_eq_append_iff.mp h
  obtain ⟨l, us₂, rfl, h₂⟩ := exists_lexeme h₁
  obtain ⟨is, us₃, rfl, his, h₃⟩ := List.map_eq_append_iff.mp h₂
  obtain ⟨os, us₄, rfl, hos, h₄⟩ := List.map_eq_append_iff.mp h₃
  obtain ⟨as, us₅, rfl, has, h₅⟩ := List.map_eq_append_iff.mp h₄
  obtain ⟨l', us₆, rfl, h₆⟩ := exists_lexeme h₅
  obtain rfl := List.map_eq_nil_iff.mp h₆
  obtain ⟨comments, hc, hunlocated⟩ := exists_comments hcs
  refine ⟨⟨t.operation, t.inputs, t.outputs, comments, l⟩, ?_, ?_⟩
  · exact .mk l l' hc (isOperation_ofOperation _) (many_literals hi his)
      (isTightest_of_tokens htight hos) (isAccurate_of_tokens hacc has)
      (ofParts?_eq_some_iff.mpr ⟨rfl, rfl⟩)
  · simp [Test.unlocated, hunlocated]

theorem isName_of_tokens {name : List String} {us : List Lexeme} (hne : name ≠ [])
    (h : us.map Lexeme.token = nameTokens name) : IsName us name := by
  fun_induction nameTokens name generalizing us with
  | case1 => exact absurd rfl hne
  | case2 part =>
    obtain ⟨l, us₁, rfl, h₁⟩ := exists_lexeme h
    obtain rfl := List.map_eq_nil_iff.mp h₁
    exact .last part l
  | case3 part next parts ih =>
    obtain ⟨l, us₁, rfl, h₁⟩ := exists_lexeme h
    obtain ⟨l', us₂, rfl, h₂⟩ := exists_lexeme h₁
    exact .cons part l l' (ih (by simp) h₂)

theorem exists_isTestcase {t : Testcase} {us : List Lexeme} {cs : List Comment} (ht : t.WellFormed)
    (hcs : cs.map Comment.unlocated = t.comments.map Comment.unlocated)
    (h : us.map Lexeme.token = t.bodyTokens) :
    ∃ t', IsTestcase cs us t' ∧ t'.unlocated = t.unlocated := by
  obtain ⟨-, hname, -, htests, hall⟩ := ht
  obtain ⟨l, us₁, rfl, h₁⟩ := exists_lexeme h
  obtain ⟨ns, us₂, rfl, hns, h₂⟩ := List.map_eq_append_iff.mp h₁
  obtain ⟨l', us₃, rfl, h₃⟩ := exists_lexeme h₂
  obtain ⟨ts, us₄, rfl, hts, h₄⟩ := List.map_eq_append_iff.mp h₃
  obtain ⟨l'', us₅, rfl, h₅⟩ := exists_lexeme h₄
  obtain rfl := List.map_eq_nil_iff.mp h₅
  obtain ⟨tests, hmany, hunlocated⟩ := exists_many (fun t ht us => exists_isTest (hall t ht)) hts
  have hne : tests ≠ [] := by
    rintro rfl
    exact htests (List.map_eq_nil_iff.mp hunlocated.symm)
  refine ⟨⟨t.name, tests, cs, l⟩, .mk l l' l'' (isName_of_tokens hname hns) hmany hne, ?_⟩
  simp [Testcase.unlocated, hunlocated, hcs]

theorem exists_isCommentedTestcase {t : Testcase} {us : List Lexeme} (ht : t.WellFormed)
    (h : us.map Lexeme.token = t.tokens) :
    ∃ t', IsCommentedTestcase us t' ∧ t'.unlocated = t.unlocated := by
  obtain ⟨cs, us₁, rfl, hcs, h₁⟩ := List.map_eq_append_iff.mp h
  obtain ⟨comments, hc, hunlocated⟩ := exists_comments hcs
  obtain ⟨t', ht', heq⟩ := exists_isTestcase ht hunlocated h₁
  exact ⟨t', .mk hc ht', heq⟩

/-- The grammar derives a well-formed document from its own tokens, wherever these stand. -/
theorem exists_isDocument {d : Document} {us : List Lexeme} (hd : d.WellFormed)
    (h : us.map Lexeme.token = d.tokens ++ [.endOfFile]) :
    ∃ d', IsDocument d.fileName us d' ∧ d'.unlocated = d.unlocated := by
  obtain ⟨fileName, comment, testcases⟩ := d
  obtain ⟨hne, hcomment, -, hall⟩ := hd
  obtain ⟨first, others, rfl⟩ := List.exists_cons_of_ne_nil hne
  obtain ⟨hfirst, hothers⟩ := List.forall_mem_cons.mp hall
  -- The comments in front of the first testcase are derived together.
  have htokens : us.map Lexeme.token = (comment.toList ++ first.comments).map Comment.token ++
      (first.bodyTokens ++ (others.flatMap Testcase.tokens ++ [.endOfFile])) := by
    rw [h]
    cases comment <;> simp [Document.tokens, Testcase.tokens]
  obtain ⟨cs, us₁, rfl, hcs, h₁⟩ := List.map_eq_append_iff.mp htokens
  obtain ⟨ts, us₂, rfl, hts, h₂⟩ := List.map_eq_append_iff.mp h₁
  obtain ⟨os, us₃, rfl, hos, h₃⟩ := List.map_eq_append_iff.mp h₂
  obtain ⟨l, us₄, rfl, h₄⟩ := exists_lexeme h₃
  obtain rfl := List.map_eq_nil_iff.mp h₄
  obtain ⟨leading, hc, hleading⟩ := exists_comments hcs
  have hhead : leading.head?.map Comment.unlocated = comment.map Comment.unlocated ∧
      (leading.drop 1).map Comment.unlocated = first.comments.map Comment.unlocated := by
    rw [← List.head?_map, List.map_drop, hleading]
    cases comment with
    | some c => simp
    | none => simp [hcomment rfl first rfl]
  obtain ⟨first', hfirst', hfirst⟩ := exists_isTestcase hfirst hhead.2 hts
  obtain ⟨others', hothers', hothers⟩ :=
    exists_many (fun t ht us => exists_isCommentedTestcase (hothers t ht)) hos
  refine ⟨⟨fileName, leading.head?, first' :: others'⟩, .mk l hc hfirst' hothers', ?_⟩
  simp [Document.unlocated, hhead.1, hfirst, hothers]

/-- **Parsing undoes printing**, on exactly the documents that can be parsed: what a source gives is
well formed, and the text of a well-formed document gives the same document again, up to
locations. -/
theorem parseDocument_print :
    (∀ source fileName d, parseDocument source fileName = .ok d → d.WellFormed) ∧
      ∀ d : Document, d.WellFormed →
        ∃ d', parseDocument d.print d.fileName = .ok d' ∧ d'.unlocated = d.unlocated := by
  refine ⟨fun source fileName d h => ?_, fun d hd => ?_⟩
  · exact (parseDocument_eq_ok_iff.mp h).wellFormed (allSpelled_tokenize source)
  · obtain ⟨d', hd', heq⟩ := exists_isDocument hd (tokenize_spell hd.allSpelled)
    exact ⟨d', parseDocument_eq_ok_iff.mpr hd', heq⟩

theorem parseDocument_print_inf :
    ∃ d : Document, d.print = "//a\ntestcase t \x7b inf -infF = [ 1 , 2.5 ] _ com ; \x7d" ∧
      d.WellFormed ∧
      ∃ d', parseDocument d.print d.fileName = .ok d' ∧ d'.unlocated = d.unlocated := by
  have hd : Document.WellFormed ⟨"t.itl", some ⟨.line, "//a", .start⟩, [⟨["t"],
      [⟨"inf", [.real .float (.infinity .minus)],
        .tightest [.interval (.infSup .double (.number "1") (.number "2.5") (some .common))],
        [], .start⟩], [], .start⟩]⟩ := by
    decide +kernel
  exact ⟨_, by decide +kernel, hd, parseDocument_print.2 _ hd⟩

end IntervalSuite.Itl
