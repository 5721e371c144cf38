import IntervalSuite.Proofs.Fallible
import IntervalSuite.Proofs.Itl.Grammar
import IntervalSuite.Proofs.Itl.Tiling

/-!
# The parser accepts exactly the grammar

Each rule of the parser is compared with the relation of the same name in the grammar. What the rule
takes off the lexemes is a phrase (`Sound`), and it takes off any phrase (`Complete`) as long as the
token behind it is one with which the phrase can not go on; the tokens that follow a literal, an
output list or a name in the grammar are such.

* `repeatWhile_sound`, `repeatWhile_complete`: the loop, for any rule.
* `parseTokens_eq_ok_iff`: lexemes with one end of file parse iff the grammar derives them.
* `parseDocument_derives`: the same for a source, with what its document keeps of it.
-/

namespace IntervalSuite.Itl.Grammar

open Itl.Parser

/-! ## Soundness -/

/-- The rule `p` of the parser takes a phrase of the kind `R` off the lexemes. -/
def Sound {α : Type} (R : List Lexeme → α → Prop) (p : List Lexeme → Attempt (α × List Lexeme)) :
    Prop :=
  ∀ ⦃ts a rest⦄, p ts = .ok (a, rest) → ∃ us, ts = us ++ rest ∧ R us a

theorem not_fail_eq_ok {α : Type} {e : Expected} {ts : List Lexeme} {r : α × List Lexeme}
    (h : fail e ts = .ok r) : False := by
  cases h

theorem expect_eq_ok_iff {token : Token} {e : Expected} {ts rest : List Lexeme} {u : Unit} :
    expect token e ts = .ok (u, rest) ↔ ∃ l, ts = ⟨token, l⟩ :: rest := by
  unfold expect
  split
  · simp [fail]
  · rename_i l rest'
    obtain ⟨t, l⟩ := l
    split
    · rename_i ht
      simp only [Except.ok.injEq, Prod.mk.injEq, List.cons.injEq, Lexeme.mk.injEq]
      constructor
      · rintro ⟨-, rfl⟩
        exact ⟨l, ⟨ht, rfl⟩, rfl⟩
      · rintro ⟨_, -, rfl⟩
        exact ⟨trivial, rfl⟩
    · rename_i ht
      simp only [fail, reduceCtorEq, List.cons.injEq, Lexeme.mk.injEq, false_iff]
      rintro ⟨_, ⟨rfl, -⟩, -⟩
      exact ht rfl

theorem comments_sound (ts : List Lexeme) :
    ∃ us, ts = us ++ (comments ts).2 ∧ Many IsComment us (comments ts).1 := by
  fun_induction comments ts with
  | case1 style text location ts cs rest heq ih =>
    rw [heq] at ih
    obtain ⟨us, hus, hmany⟩ := ih
    exact ⟨_ :: us, congrArg _ hus, .cons (.mk style text location) hmany⟩
  | case2 ts => exact ⟨[], rfl, .nil⟩

theorem bound_sound : Sound IsBound bound := by
  intro ts a rest h
  unfold bound at h
  split at h
  · cases h
    exact ⟨_, rfl, .float _ _⟩
  · cases h
    exact ⟨_, rfl, .infinity _ _⟩
  · split at h
    · rename_i hs
      cases h
      exact ⟨_, rfl, .integer hs _⟩
    · cases h
  · exact (not_fail_eq_ok h).elim

theorem decoration_sound : Sound IsDecoration decoration := by
  intro ts d rest h
  unfold decoration at h
  split at h
  · split at h
    · cases h
      exact ⟨_, rfl, .some _ _ _⟩
    · exact (not_fail_eq_ok h).elim
  · cases h
    exact ⟨[], rfl, .none⟩

theorem ofBounds_eq_ok {inf sup : FloatType × Scalar} {i : Interval} {d : Option Decoration}
    (h : Interval.ofBounds inf sup d = .ok i) :
    inf.1 = sup.1 ∧ i = .infSup inf.1 inf.2 sup.2 d := by
  unfold Interval.ofBounds at h
  split at h
  · cases h
    exact ⟨‹_›, rfl⟩
  · cases h

theorem intervalTail_sound {location : Location} {ts rest : List Lexeme} {i : Interval}
    (h : intervalTail location ts = .ok (i, rest)) :
    ∃ us, ts = us ++ rest ∧ IsInterval (⟨.punct .openBracket, location⟩ :: us) i := by
  unfold intervalTail at h
  split at h
  · rename_i kind text l ts
    simp only [bind_eq_ok_iff, Prod.exists, expect_eq_ok_iff] at h
    obtain ⟨_, ts', ⟨l', rfl⟩, h⟩ := h
    split at h
    · rename_i hk
      simp only [bind_eq_ok_iff, Prod.exists, pure_eq_ok_iff, Prod.mk.injEq] at h
      obtain ⟨d, _, hdec, rfl, rfl⟩ := h
      obtain ⟨ds, rfl, hd⟩ := decoration_sound hdec
      subst hk
      exact ⟨_ :: _ :: ds, rfl, .entire _ _ _ _ hd⟩
    · rename_i hk
      cases h
      refine ⟨[_, _], rfl, ?_⟩
      cases kind with
      | empty => exact .empty _ _ _ _
      | nai => exact .nai _ _ _ _
      | entire => exact absurd rfl hk
  · simp only [bind_eq_ok_iff, Prod.exists, expect_eq_ok_iff] at h
    obtain ⟨type, inf, _, hinf, _, _, ⟨l, rfl⟩, type', sup, _, hsup, _, _, ⟨l', rfl⟩, h⟩ := h
    obtain ⟨is, rfl, hi⟩ := bound_sound hinf
    obtain ⟨ss, rfl, hs⟩ := bound_sound hsup
    split at h
    · cases h
    · rename_i hof
      obtain ⟨htype, rfl⟩ := ofBounds_eq_ok hof
      obtain rfl : type = type' := htype
      simp only [bind_eq_ok_iff, Prod.exists, pure_eq_ok_iff, Prod.mk.injEq] at h
      obtain ⟨d, _, hdec, rfl, rfl⟩ := h
      obtain ⟨ds, rfl, hd⟩ := decoration_sound hdec
      refine ⟨is ++ ⟨_, l⟩ :: (ss ++ ⟨_, l'⟩ :: ds), ?_, .infSup _ _ _ hi hs hd⟩
      simp

theorem literal_sound : Sound IsLiteral literal := by
  intro ts a rest h
  unfold literal at h
  split at h
  · simp only [bind_eq_ok_iff, Prod.exists, pure_eq_ok_iff, Prod.mk.injEq] at h
    obtain ⟨i, _, hi, rfl, rfl⟩ := h
    obtain ⟨us, rfl, hi'⟩ := intervalTail_sound hi
    exact ⟨_ :: us, rfl, .interval hi'⟩
  · simp only [Except.ok.injEq, Prod.mk.injEq] at h
    obtain ⟨rfl, rfl⟩ := h
    exact ⟨[_], rfl, .integer _ _⟩
  · cases h
    exact ⟨[_], rfl, .float _ _⟩
  · cases h
    exact ⟨[_], rfl, .infinity _ _⟩
  · cases h
    exact ⟨[_], rfl, .string _ _⟩
  · cases h
    exact ⟨[_], rfl, .boolean _ _⟩
  · cases h
    exact ⟨[_], rfl, .overlap _ _⟩
  · exact (not_fail_eq_ok h).elim

/-- A loop over a rule that takes something off the lexemes gives at least one phrase, and stops only
where the next token asks it to. -/
theorem repeatWhile_sound {α : Type} {R : List Lexeme → α → Prop} {more : Token → Bool}
    {p : List Lexeme → Attempt (α × List Lexeme)} (hp : Sound R p)
    (hne : ∀ us a, R us a → us ≠ []) {ts rest : List Lexeme} {as : List α}
    (h : repeatWhile more p ts = .ok (as, rest)) :
    ∃ us, ts = us ++ rest ∧ Many R us as ∧ as ≠ [] ∧ more (peek rest).token = false := by
  fun_induction repeatWhile more p ts generalizing as rest with
  | case1 => cases h
  | case2 => cases h
  | case3 ts a rest₁ hfirst hmore as₁ rest₂ hloop ih =>
    cases h
    obtain ⟨us, rfl, hR⟩ := hp hfirst
    obtain ⟨vs, rfl, hmany, -, hstop⟩ := ih hloop
    exact ⟨us ++ vs, by simp, .cons hR hmany, by simp, hstop⟩
  | case4 ts a rest₁ hfirst hmore =>
    cases h
    obtain ⟨us, rfl, hR⟩ := hp hfirst
    have hpos := List.length_pos_iff.mpr (hne us a hR)
    refine ⟨us ++ [], by simp, .cons hR .nil, by simp, ?_⟩
    simpa [hpos] using hmore

theorem IsInterval.ne_nil {us : List Lexeme} {i : Interval} (h : IsInterval us i) : us ≠ [] := by
  cases h <;> simp

theorem IsLiteral.ne_nil {us : List Lexeme} {a : Literal} (h : IsLiteral us a) : us ≠ [] := by
  cases h with
  | interval h => exact h.ne_nil
  | _ => simp

theorem IsTest.ne_nil {us : List Lexeme} {t : Test} (h : IsTest us t) : us ≠ [] := by
  cases h
  simp

theorem IsTestcase.ne_nil {comments : List Comment} {us : List Lexeme} {t : Testcase}
    (h : IsTestcase comments us t) : us ≠ [] := by
  cases h
  simp

theorem IsCommentedTestcase.ne_nil {us : List Lexeme} {t : Testcase}
    (h : IsCommentedTestcase us t) : us ≠ [] := by
  obtain ⟨-, ht⟩ := h
  simp [ht.ne_nil]

theorem literals_sound {ts rest : List Lexeme} {as : List Literal}
    (h : literals ts = .ok (as, rest)) :
    ∃ us, ts = us ++ rest ∧ Many IsLiteral us as ∧ as ≠ [] := by
  obtain ⟨us, hts, hmany, hne, -⟩ := repeatWhile_sound literal_sound (fun _ _ => IsLiteral.ne_nil) h
  exact ⟨us, hts, hmany, hne⟩

theorem inputs_sound : Sound (Many IsLiteral) inputs := by
  intro ts as rest h
  unfold inputs at h
  split at h
  · obtain ⟨us, hts, hmany, -⟩ := literals_sound h
    exact ⟨us, hts, hmany⟩
  · cases h
    exact ⟨[], rfl, .nil⟩

theorem tightest_sound : Sound IsTightest tightest := by
  intro ts os rest h
  unfold tightest at h
  split at h
  · simp only [bind_eq_ok_iff, Prod.exists, pure_eq_ok_iff, Prod.mk.injEq] at h
    obtain ⟨as, _, has, rfl, rfl⟩ := h
    obtain ⟨us, rfl, hmany, hne⟩ := literals_sound has
    exact ⟨_ :: us, rfl, .some _ hmany hne⟩
  · cases h
    exact ⟨[], rfl, .none⟩

theorem accurate_sound : Sound IsAccurate accurate := by
  intro ts os rest h
  unfold accurate at h
  split at h
  · simp only [bind_eq_ok_iff, Prod.exists, expect_eq_ok_iff, pure_eq_ok_iff, Prod.mk.injEq] at h
    obtain ⟨_, _, ⟨l, rfl⟩, as, _, has, rfl, rfl⟩ := h
    obtain ⟨us, rfl, hmany, hne⟩ := literals_sound has
    exact ⟨_ :: _ :: us, rfl, .some _ _ hmany hne⟩
  · cases h
    exact ⟨[], rfl, .none⟩

theorem operation_sound {ts rest : List Lexeme} {name : String}
    (h : operation ts = .ok (name, rest)) :
    ∃ t, ts = ⟨t, (peek ts).location⟩ :: rest ∧ IsOperation t name := by
  unfold operation at h
  split at h
  · cases h
    exact ⟨_, rfl, .identifier _⟩
  · split at h
    · rename_i htext
      cases h
      subst htext
      exact ⟨_, rfl, .inf⟩
    · exact (not_fail_eq_ok h).elim
  · exact (not_fail_eq_ok h).elim

theorem test_sound : Sound IsTest test := by
  intro ts t rest h
  unfold test at h
  obtain ⟨cs, hcs, hc⟩ := comments_sound ts
  simp only [bind_eq_ok_iff, Prod.exists] at h
  obtain ⟨name, ts₁, hop, inputs, ts₂, hin, os, ts₃, htight, as, ts₄, hacc, h⟩ := h
  obtain ⟨token, hts, ho⟩ := operation_sound hop
  obtain ⟨is, rfl, hi⟩ := inputs_sound hin
  obtain ⟨os, rfl, ht⟩ := tightest_sound htight
  obtain ⟨as, rfl, ha⟩ := accurate_sound hacc
  split at h
  · exact (not_fail_eq_ok h).elim
  · rename_i hout
    simp only [bind_eq_ok_iff, Prod.exists, expect_eq_ok_iff, pure_eq_ok_iff, Prod.mk.injEq] at h
    obtain ⟨_, _, ⟨l, rfl⟩, rfl, rfl⟩ := h
    refine ⟨_, hcs.trans ?_, .mk (peek (comments ts).2).location l hc ho hi ht ha hout⟩
    conv_lhs => rw [hts]
    simp

theorem nameTail_sound {part : String} (l : Location) {ts rest : List Lexeme} {parts : List String}
    (h : nameTail ts = .ok (parts, rest)) :
    ∃ us, ts = us ++ rest ∧ IsName (⟨.identifier part, l⟩ :: us) (part :: parts) := by
  fun_induction nameTail ts generalizing part l parts rest with
  | case1 l' part' l'' rest' ih =>
    simp only [bind_eq_ok_iff, Prod.exists, pure_eq_ok_iff, Prod.mk.injEq] at h
    obtain ⟨parts', _, htail, rfl, rfl⟩ := h
    obtain ⟨us, rfl, hname⟩ := ih l'' htail
    exact ⟨_ :: _ :: us, rfl, .cons _ _ _ hname⟩
  | case2 => exact (not_fail_eq_ok h).elim
  | case3 =>
    cases h
    exact ⟨[], rfl, .last _ _⟩

theorem name_sound : Sound IsName name := by
  intro ts parts rest h
  unfold name at h
  split at h
  · simp only [bind_eq_ok_iff, Prod.exists, pure_eq_ok_iff, Prod.mk.injEq] at h
    obtain ⟨parts', _, htail, rfl, rfl⟩ := h
    obtain ⟨us, rfl, hname⟩ := nameTail_sound _ htail
    exact ⟨_ :: us, rfl, hname⟩
  · exact (not_fail_eq_ok h).elim

theorem testcase_sound (cs : List Comment) : Sound (IsTestcase cs) (testcase cs) := by
  intro ts t rest h
  unfold testcase at h
  simp only [bind_eq_ok_iff, Prod.exists, expect_eq_ok_iff, pure_eq_ok_iff, Prod.mk.injEq] at h
  obtain ⟨_, _, ⟨l, rfl⟩, parts, _, hname, _, _, ⟨l', rfl⟩, tests, _, htests, _, _, ⟨l'', rfl⟩,
    rfl, rfl⟩ := h
  obtain ⟨ns, rfl, hn⟩ := name_sound hname
  obtain ⟨us, rfl, ht, hne, -⟩ := repeatWhile_sound test_sound (fun _ _ => IsTest.ne_nil) htests
  refine ⟨_, ?_, .mk l l' l'' hn ht hne⟩
  simp

theorem commentedTestcase_sound : Sound IsCommentedTestcase commentedTestcase := by
  intro ts t rest h
  obtain ⟨cs, hcs, hc⟩ := comments_sound ts
  obtain ⟨us, hus, ht⟩ := testcase_sound _ h
  exact ⟨cs ++ us, by rw [List.append_assoc, ← hus, ← hcs], .mk hc ht⟩

theorem testcases_sound {ts rest : List Lexeme} {others : List Testcase}
    (h : testcases ts = .ok (others, rest)) :
    ∃ us, ts = us ++ rest ∧ Many IsCommentedTestcase us others ∧
      (peek rest).token = .endOfFile := by
  unfold testcases at h
  split at h
  · rename_i hend
    cases h
    exact ⟨[], rfl, .nil, hend⟩
  · obtain ⟨us, hts, hmany, -, hstop⟩ :=
      repeatWhile_sound commentedTestcase_sound (fun _ _ => IsCommentedTestcase.ne_nil) h
    exact ⟨us, hts, hmany, by simpa using hstop⟩

/-! ## Completeness -/

/-- The rule `p` of the parser takes any phrase of the kind `R` off the lexemes, whatever stands
behind it, as long as the next token is in `F`. -/
def Complete {α : Type} (R : List Lexeme → α → Prop) (F : Token → Prop)
    (p : List Lexeme → Attempt (α × List Lexeme)) : Prop :=
  ∀ ⦃us a rest⦄, R us a → F (peek rest).token → p (us ++ rest) = .ok (a, rest)

/-- No literal goes on or starts at the token. -/
def EndsLiteral (t : Token) : Prop :=
  startsLiteral t = false ∧ t ≠ .punct .underscore

theorem expect_cons (token : Token) (e : Expected) (l : Location) (rest : List Lexeme) :
    expect token e (⟨token, l⟩ :: rest) = .ok ((), rest) :=
  expect_eq_ok_iff.mpr ⟨l, rfl⟩

theorem comments_complete {us rest : List Lexeme} {cs : List Comment} (h : Many IsComment us cs)
    (hrest : ∀ style text, (peek rest).token ≠ .comment style text) :
    comments (us ++ rest) = (cs, rest) := by
  induction h with
  | nil =>
    rw [List.nil_append]
    unfold comments
    split
    · exact absurd rfl (hrest _ _)
    · rfl
  | cons hc _ ih =>
    cases hc
    simp [comments, ih]

theorem bound_complete : Complete IsBound (fun _ => True) bound := by
  intro us b rest h _
  cases h with
  | float text l => rfl
  | infinity text l => rfl
  | integer hs l => simp [bound, hs]

theorem decoration_complete : Complete IsDecoration (· ≠ .punct .underscore) decoration := by
  intro us d rest h hrest
  cases h with
  | none =>
    rw [List.nil_append]
    unfold decoration
    split
    · exact absurd rfl hrest
    · rfl
  | some d l l' => rfl

theorem IsBound.exists_cons {us : List Lexeme} {b : FloatType × Scalar} (h : IsBound us b) :
    ∃ t l, us = [⟨t, l⟩] ∧ ∀ kind text, t ≠ .special kind text := by
  cases h <;> exact ⟨_, _, rfl, by simp⟩

theorem intervalTail_complete {l : Location} {us rest : List Lexeme} {i : Interval}
    (h : IsInterval (⟨.punct .openBracket, l⟩ :: us) i)
    (hrest : (peek rest).token ≠ .punct .underscore) :
    intervalTail l (us ++ rest) = .ok (i, rest) := by
  cases h with
  | nai text _ l' l'' => rfl
  | empty text _ l' l'' => rfl
  | entire text _ l' l'' hd =>
    simp [intervalTail, expect_cons, decoration_complete hd hrest, bind, Except.bind, pure,
      Except.pure, Interval.decorate]
  | infSup _ l' l'' hi hs hd =>
    obtain ⟨t, li, rfl, ht⟩ := hi.exists_cons
    unfold intervalTail
    split
    · rename_i heq
      simp only [List.cons_append, List.cons.injEq, Lexeme.mk.injEq] at heq
      exact absurd heq.1.1 (ht _ _)
    · rw [List.append_assoc, bound_complete hi trivial]
      simp [expect_cons, bound_complete hs trivial, decoration_complete hd hrest, bind, Except.bind,
        pure, Except.pure, Interval.ofBounds, Interval.decorate]

theorem IsInterval.exists_cons {us : List Lexeme} {i : Interval} (h : IsInterval us i) :
    ∃ l vs, us = ⟨.punct .openBracket, l⟩ :: vs := by
  cases h <;> exact ⟨_, _, rfl⟩

theorem literal_complete : Complete IsLiteral (· ≠ .punct .underscore) literal := by
  intro us a rest h hrest
  cases h with
  | interval hi =>
    obtain ⟨l, vs, rfl⟩ := hi.exists_cons
    simp [literal, intervalTail_complete hi hrest, bind, Except.bind, pure, Except.pure]
  | _ => simp [literal]

theorem IsLiteral.exists_cons {us : List Lexeme} {a : Literal} (h : IsLiteral us a) :
    ∃ l vs, us = l :: vs ∧ startsLiteral l.token = true ∧ l.token ≠ .punct .underscore := by
  cases h with
  | interval hi =>
    obtain ⟨l, vs, rfl⟩ := hi.exists_cons
    exact ⟨_, vs, rfl, rfl, by simp⟩
  | _ => exact ⟨_, _, rfl, rfl, by simp⟩

/-- A loop over a rule takes off all phrases, if each of them starts with a token at which the loop
goes on and which may stand behind a phrase. -/
theorem repeatWhile_complete {α : Type} {R : List Lexeme → α → Prop} {F : Token → Prop}
    {more : Token → Bool} {p : List Lexeme → Attempt (α × List Lexeme)} (hp : Complete R F p)
    (hstart : ∀ us a, R us a → ∃ l vs, us = l :: vs ∧ more l.token = true ∧ F l.token)
    {us rest : List Lexeme} {as : List α} (h : Many R us as) (hne : as ≠ [])
    (hstop : more (peek rest).token = false) (hrest : F (peek rest).token) :
    repeatWhile more p (us ++ rest) = .ok (as, rest) := by
  induction h with
  | nil => exact absurd rfl hne
  | cons hR hmany ih =>
    rename_i ts us a as
    unfold repeatWhile
    cases hmany with
    | nil => simp [hp hR hrest, hstop]
    | cons hR' hmany' =>
      rename_i ts' us' a' as'
      obtain ⟨l, vs, rfl, hmore, hF⟩ := hstart _ _ hR'
      obtain ⟨l', vs', rfl, -, -⟩ := hstart _ _ hR
      have hfirst : p (l' :: vs' ++ (l :: vs ++ us' ++ rest)) = .ok (a, l :: vs ++ us' ++ rest) :=
        hp hR hF
      have hgo : (l :: vs ++ us' ++ rest).length < (l' :: vs' ++ (l :: vs ++ us' ++ rest)).length ∧
          more (peek (l :: vs ++ us' ++ rest)).token = true :=
        ⟨by simp only [List.length_append, List.length_cons]; omega, hmore⟩
      rw [List.append_assoc, hfirst]
      simp only [hgo, and_self, ↓reduceDIte, ih (by simp)]

theorem literals_complete {us rest : List Lexeme} {as : List Literal} (h : Many IsLiteral us as)
    (hne : as ≠ []) (hrest : EndsLiteral (peek rest).token) :
    literals (us ++ rest) = .ok (as, rest) :=
  repeatWhile_complete literal_complete (fun _ _ => IsLiteral.exists_cons) h hne hrest.1 hrest.2

theorem inputs_complete : Complete (Many IsLiteral) EndsLiteral inputs := by
  intro us as rest h hrest
  unfold inputs
  cases h with
  | nil => simp [hrest.1]
  | cons hl hs =>
    have hall := literals_complete (.cons hl hs) (by simp) hrest
    obtain ⟨l, vs, rfl, hstart, -⟩ := hl.exists_cons
    rwa [if_pos (by exact hstart)]

theorem tightest_complete :
    Complete IsTightest (fun t => EndsLiteral t ∧ t ≠ .punct .equals) tightest := by
  intro us os rest h hrest
  cases h with
  | none =>
    rw [List.nil_append]
    unfold tightest
    split
    · exact absurd rfl hrest.2
    · rfl
  | some l h hne =>
    simp [tightest, literals_complete h hne hrest.1, bind, Except.bind, pure, Except.pure]

theorem accurate_complete :
    Complete IsAccurate (fun t => EndsLiteral t ∧ t ≠ .punct .less) accurate := by
  intro us os rest h hrest
  cases h with
  | none =>
    rw [List.nil_append]
    unfold accurate
    split
    · exact absurd rfl hrest.2
    · rfl
  | some l l' h hne =>
    simp [accurate, expect_cons, literals_complete h hne hrest.1, bind, Except.bind, pure,
      Except.pure]

/-- Behind optional accurate outputs and a semicolon there is nothing that could belong to what
stands in front of them. -/
theorem IsAccurate.endsLiteral {us : List Lexeme} {os : Option (List Literal)} (h : IsAccurate us os)
    (l : Location) (rest : List Lexeme) :
    EndsLiteral (peek (us ++ ⟨.punct .semicolon, l⟩ :: rest)).token ∧
      (peek (us ++ ⟨.punct .semicolon, l⟩ :: rest)).token ≠ .punct .equals := by
  cases h <;> simp [EndsLiteral, peek, startsLiteral]

theorem IsTightest.endsLiteral {us vs : List Lexeme} {os : Option (List Literal)}
    (h : IsTightest us os) (hrest : EndsLiteral (peek vs).token) :
    EndsLiteral (peek (us ++ vs)).token := by
  cases h with
  | none => exact hrest
  | some => simp [EndsLiteral, peek, startsLiteral]

theorem IsOperation.not_comment {t : Token} {name : String} (h : IsOperation t name)
    (style : CommentStyle) (text : String) : t ≠ .comment style text := by
  cases h <;> simp

theorem operation_complete {t : Token} {name : String} (h : IsOperation t name) (l : Location)
    (rest : List Lexeme) : operation (⟨t, l⟩ :: rest) = .ok (name, rest) := by
  cases h <;> simp [operation]

theorem test_complete : Complete IsTest (fun _ => True) test := by
  intro us t rest h _
  obtain ⟨location, l, hc, ho, hi, ht, ha, hout⟩ := h
  rename_i cs is os as t comments name inputs tight acc outputs
  have hsemi := ha.endsLiteral l rest
  have hcomments : Parser.comments (cs ++ ⟨t, location⟩ :: (is ++ (os ++ (as ++
      ⟨.punct .semicolon, l⟩ :: rest)))) = (comments, _) := comments_complete hc ho.not_comment
  have hinputs := inputs_complete hi (ht.endsLiteral hsemi.1)
  have htight := tightest_complete ht hsemi
  have hacc : accurate (as ++ ⟨.punct .semicolon, l⟩ :: rest) = .ok (acc, _) :=
    accurate_complete ha (by simp [EndsLiteral, peek, startsLiteral])
  simp [test, hcomments, operation_complete ho, hinputs, htight, hacc, hout, expect_cons, bind,
    Except.bind, pure, Except.pure, peek]

theorem nameTail_complete {part : String} {l : Location} {us rest : List Lexeme}
    {parts : List String} (h : IsName (⟨.identifier part, l⟩ :: us) (part :: parts))
    (hrest : (peek rest).token ≠ .punct .dot) : nameTail (us ++ rest) = .ok (parts, rest) := by
  induction parts generalizing part l us with
  | nil =>
    cases h with
    | last =>
      rw [List.nil_append]
      unfold nameTail
      split
      · exact absurd rfl hrest
      · rfl
    | cons _ _ l' h => cases h
  | cons part' parts ih =>
    cases h with
    | @cons _ _ l' ts _ h =>
      obtain ⟨l'', vs, rfl⟩ : ∃ l'' vs, ts = ⟨.identifier part', l''⟩ :: vs := by
        cases h <;> exact ⟨_, _, rfl⟩
      simp [nameTail, ih h, bind, Except.bind, pure, Except.pure]

theorem name_complete : Complete IsName (· ≠ .punct .dot) name := by
  intro us parts rest h hrest
  obtain ⟨part, l, vs, parts, rfl, rfl⟩ :
      ∃ part l vs ps, us = ⟨.identifier part, l⟩ :: vs ∧ parts = part :: ps := by
    cases h <;> exact ⟨_, _, _, _, rfl, rfl⟩
  simp [name, nameTail_complete h hrest, bind, Except.bind, pure, Except.pure]

theorem IsTest.exists_cons {us : List Lexeme} {t : Test} (h : IsTest us t) :
    ∃ l vs, us = l :: vs ∧ l.token ≠ .punct .closeBrace := by
  obtain ⟨location, l, hc, ho, -, -, -, -⟩ := h
  cases hc with
  | nil =>
    cases ho <;> exact ⟨_, _, rfl, by simp⟩
  | cons hc _ =>
    cases hc
    exact ⟨_, _, rfl, by simp⟩

theorem testcase_complete (cs : List Comment) :
    Complete (IsTestcase cs) (fun _ => True) (testcase cs) := by
  intro us t rest h _
  obtain ⟨location, l, l', hn, ht, hne⟩ := h
  rename_i ns ts parts tests
  have hname : name (ns ++ ⟨.punct .openBrace, l⟩ :: (ts ++ ⟨.punct .closeBrace, l'⟩ :: rest)) =
      .ok (parts, _) := name_complete hn (by simp [peek])
  have htests : repeatWhile (· ≠ .punct .closeBrace) test (ts ++ ⟨.punct .closeBrace, l'⟩ :: rest) =
      .ok (tests, ⟨.punct .closeBrace, l'⟩ :: rest) := by
    refine repeatWhile_complete test_complete (fun us t h => ?_) ht hne (by simp [peek]) trivial
    obtain ⟨l, vs, rfl, hl⟩ := h.exists_cons
    exact ⟨l, vs, rfl, by simpa using hl, trivial⟩
  simp only [testcase, List.cons_append, List.append_assoc, List.nil_append, expect_cons, hname,
    htests, bind, Except.bind, pure, Except.pure, peek]

theorem commentedTestcase_complete :
    Complete IsCommentedTestcase (fun _ => True) commentedTestcase := by
  intro us t rest h _
  obtain ⟨hc, ht⟩ := h
  rename_i cs ts comments
  have hstart : ∀ style text, (peek (ts ++ rest)).token ≠ .comment style text := by
    cases ht
    simp [peek]
  rw [List.append_assoc, commentedTestcase, comments_complete hc hstart]
  exact testcase_complete _ ht trivial

theorem IsCommentedTestcase.exists_cons {us : List Lexeme} {t : Testcase}
    (h : IsCommentedTestcase us t) :
    ∃ l vs, us = l :: vs ∧ l.token ≠ .endOfFile := by
  obtain ⟨hc, ht⟩ := h
  cases hc with
  | nil =>
    cases ht
    exact ⟨_, _, rfl, by simp⟩
  | cons hc _ =>
    cases hc
    exact ⟨_, _, rfl, by simp⟩

theorem testcases_complete : Complete (Many IsCommentedTestcase) (· = .endOfFile) testcases := by
  intro us others rest h hrest
  unfold testcases
  cases h with
  | nil => simp [hrest]
  | cons ht hs =>
    obtain ⟨l, vs, rfl, hstart⟩ := ht.exists_cons
    rw [if_neg (by exact hstart)]
    refine repeatWhile_complete commentedTestcase_complete (fun us t h => ?_) (.cons ht hs)
      (by simp)
      (by simp [hrest]) trivial
    obtain ⟨l, vs, rfl, hl⟩ := h.exists_cons
    exact ⟨l, vs, rfl, by simpa using hl, trivial⟩


/-! ## Whole documents -/

/-- Testcases end with a closing brace, so with no end of file. -/
theorem IsTestcase.exists_concat {cs : List Comment} {us : List Lexeme} {t : Testcase}
    (h : IsTestcase cs us t) : ∃ vs l, us = vs ++ [⟨.punct .closeBrace, l⟩] := by
  obtain ⟨location, l, l', -, -, -⟩ := h
  rename_i ns ts _ _
  exact ⟨⟨.testcase, location⟩ :: (ns ++ ⟨.punct .openBrace, l⟩ :: ts), l', by simp⟩

theorem Many.testcases_concat {ts us : List Lexeme} {others : List Testcase}
    (h : Many IsCommentedTestcase us others) (hts : ∃ vs l, ts = vs ++ [⟨.punct .closeBrace, l⟩]) :
    ∃ vs l, ts ++ us = vs ++ [⟨.punct .closeBrace, l⟩] := by
  induction h generalizing ts with
  | nil => simpa using hts
  | cons ht _ ih =>
    rw [← List.append_assoc]
    apply ih
    obtain ⟨-, ht⟩ := ht
    obtain ⟨vs, l, rfl⟩ := ht.exists_concat
    rename_i cs _
    exact ⟨ts ++ (cs ++ vs), l, by simp⟩

theorem document_sound {fileName : String} {ts rest : List Lexeme} {d : Document}
    (h : document fileName ts = .ok (d, rest)) :
    ∃ us, ts = us ++ rest ∧ (∃ vs l, us = vs ++ [⟨.punct .closeBrace, l⟩]) ∧
      (peek rest).token = .endOfFile ∧ ∀ l, IsDocument fileName (us ++ [⟨.endOfFile, l⟩]) d := by
  unfold document at h
  obtain ⟨cs, hcs, hc⟩ := comments_sound ts
  simp only [bind_eq_ok_iff, Prod.exists, pure_eq_ok_iff, Prod.mk.injEq] at h
  obtain ⟨first, _, hfirst, others, _, hothers, rfl, rfl⟩ := h
  obtain ⟨ts', hts, ht⟩ := testcase_sound _ hfirst
  obtain ⟨us, rfl, ho, hend⟩ := testcases_sound hothers
  refine ⟨cs ++ (ts' ++ us), ?_, ?_, hend, fun l => ?_⟩
  · rw [hcs, hts]
    simp
  · obtain ⟨vs, l, hvs⟩ := ho.testcases_concat ht.exists_concat
    exact ⟨cs ++ vs, l, by rw [hvs, List.append_assoc]⟩
  · rw [List.append_assoc, List.append_assoc]
    exact .mk l hc ht ho

/-- What is left behind the testcases is the end of file alone, if there is only one. -/
theorem rest_eq_endOfFile {body us rest : List Lexeme} {l : Location}
    (hbody : ∀ u ∈ body, u.token ≠ .endOfFile) (h : body ++ [⟨.endOfFile, l⟩] = us ++ rest)
    (hus : ∃ vs l, us = vs ++ [⟨.punct .closeBrace, l⟩]) (hend : (peek rest).token = .endOfFile) :
    rest = [⟨.endOfFile, l⟩] := by
  obtain ⟨vs, l', rfl⟩ := hus
  rcases List.eq_nil_or_concat rest with rfl | ⟨init, last, rfl⟩
  · rw [List.append_nil] at h
    cases List.append_inj_right' h rfl
  · rw [List.concat_eq_append, ← List.append_assoc] at h
    obtain ⟨hinit, hlast⟩ := List.append_inj' h rfl
    cases init with
    | nil => exact hlast.symm
    | cons u init => exact absurd hend (hbody u (by simp [hinit]))

theorem document_complete {fileName : String} {ts : List Lexeme} {d : Document}
    (h : IsDocument fileName ts d) : ∃ rest, document fileName ts = .ok (d, rest) := by
  obtain ⟨l, hc, ht, ho⟩ := h
  rename_i cs ts us leading first others
  have hcomments : comments (cs ++ (ts ++ (us ++ [⟨.endOfFile, l⟩]))) = (leading, _) :=
    comments_complete hc (by cases ht; simp [peek])
  have hfirst : testcase (leading.drop 1) (ts ++ (us ++ [⟨.endOfFile, l⟩])) = .ok (first, _) :=
    testcase_complete _ ht trivial
  have hothers : testcases (us ++ [⟨.endOfFile, l⟩]) = .ok (others, [⟨.endOfFile, l⟩]) :=
    testcases_complete ho rfl
  refine ⟨[⟨.endOfFile, l⟩], ?_⟩
  simp only [document, hcomments, hfirst, hothers, bind, Except.bind, pure, Except.pure]

/-- A list of lexemes whose only end of file is its last lexeme parses iff the grammar derives it. -/
theorem parseTokens_eq_ok_iff {fileName : String} {body : List Lexeme} {l : Location} {d : Document}
    (hbody : ∀ u ∈ body, u.token ≠ .endOfFile) :
    parseTokens fileName (body ++ [⟨.endOfFile, l⟩]) = .ok d ↔
      IsDocument fileName (body ++ [⟨.endOfFile, l⟩]) d := by
  unfold parseTokens
  constructor
  · intro h
    split at h
    · rename_i rest hdoc
      cases h
      obtain ⟨us, hus, hclose, hend, hder⟩ := document_sound hdoc
      rw [hus, rest_eq_endOfFile hbody hus hclose hend]
      exact hder l
    · cases h
  · intro h
    obtain ⟨rest, hdoc⟩ := document_complete h
    rw [hdoc]

theorem parseDocument_eq_ok_iff {source fileName : String} {d : Document} :
    parseDocument source fileName = .ok d ↔ IsDocument fileName (tokenize source) d := by
  rw [parseDocument, tokenize_eq]
  exact parseTokens_eq_ok_iff ((tiling_pieces source.toList).ne_endOfFile [])

/-- **The parser accepts exactly its grammar.** A source gives a document iff the grammar derives the
document from the tokens of the source. There is no other document that it derives from them, and the
document keeps everything that the tokens give, once and in the order of the source. -/
theorem parseDocument_derives (source fileName : String) (d : Document) :
    (parseDocument source fileName = .ok d ↔ IsDocument fileName (tokenize source) d) ∧
      (parseDocument source fileName = .ok d →
        (∀ d', IsDocument fileName (tokenize source) d' → d' = d) ∧
        d.atoms = (tokenize source).filterMap Lexeme.atom?) := by
  refine ⟨parseDocument_eq_ok_iff, fun h => ⟨fun d' hd' => ?_, ?_⟩⟩
  · have h' := parseDocument_eq_ok_iff.mpr hd'
    rw [h] at h'
    exact (Except.ok.inj h').symm
  · exact (parseDocument_eq_ok_iff.mp h).atoms_eq.symm

theorem parseDocument_leading_comments :
    ∃ d, parseDocument "//a\n//b\ntestcase t\x7bf=1;\x7d" "t.itl" = .ok d ∧
      IsDocument "t.itl" (tokenize "//a\n//b\ntestcase t\x7bf=1;\x7d") d ∧
      d.comment = some ⟨.line, "//a", ⟨1, 1⟩⟩ := by
  have h : parseDocument "//a\n//b\ntestcase t\x7bf=1;\x7d" "t.itl" = .ok
      ⟨"t.itl", some ⟨.line, "//a", ⟨1, 1⟩⟩, [⟨["t"],
        [⟨"f", [], .tightest [.integer "1" .int false], [], ⟨3, 12⟩⟩],
        [⟨.line, "//b", ⟨2, 1⟩⟩], ⟨3, 1⟩⟩]⟩ := by
    decide +kernel
  exact ⟨_, h, (parseDocument_derives _ _ _).1.mp h, rfl⟩

end IntervalSuite.Itl.Grammar
