import IntervalSuite.Proofs.Itl.Parsing
import IntervalSuite.Proofs.Itl.Prediction

/-!
# The rules of the parser read the outline

For each rule of the parser, its results are explained by the regular expression of the same name
(`Accounts`), up to a token that may follow its phrases. Where a rule looks at the next token, that
token decides between the alternatives of the expression. The only rule that can refuse what the
expression allows is that for an interval with bounds.

* `accounts_interval`: an interval is refused at its opening bracket if its bounds have different
  types.
* `accounts_document`: the whole parser.
-/

namespace IntervalSuite.Itl.Outline

open scoped Computability
open Itl.Parser (peek fail expect)

variable {F : Token → Prop} {ts : List Lexeme}

/-! ## Tokens and comments -/

theorem accounts_expect {t : Token} {e : Expected} (hne : t ≠ .endOfFile)
    (hopen : t ≠ .punct .openBracket) (hs : t.Spelled) (hend : Ended ts) :
    Accounts (tok t) F ts (expect t e ts) := by
  obtain ⟨l, rest, rfl⟩ := hend.exists_cons
  simp only [expect]
  split
  · rename_i hl
    subst hl
    exact accounts_one (decide_eq_true rfl) hne (not_mismatched_of_ne hopen rest) hend
  · rename_i hl
    exact accounts_fail hend (.tok hs) (startsIn_tok t) hl

theorem accounts_punct {p : Punct} {e : Expected} (hp : p ≠ .openBracket) (hend : Ended ts) :
    Accounts (tok (.punct p)) F ts (expect (.punct p) e ts) :=
  accounts_expect (by simp) (by simpa using hp) (Token.spelled_punct p) hend

theorem accounts_comments (hend : Ended ts) :
    Accounts comments (fun t => isComment t = false) ts (.ok (Parser.comments ts)) := by
  have hstart : StartsIn (fun t => isComment t = true) (oneOf isComment) := .oneOf fun _ h => h
  fun_induction Parser.comments ts with
  | case1 style text location ts cs rest heq ih =>
    have htail := ih (hend.tail (by simp))
    rw [heq] at htail
    refine Accounts.star_present (Accounts.cons ?_ rfl (by simp) (not_mismatched_of_ne (by simp) _)
      hend) (by simp [peek, isComment])
    exact htail.map (⟨style, text, location⟩ :: ·)
  | case2 ts hnot =>
    refine accounts_star_absent hend hstart ?_
    obtain ⟨⟨t, location⟩, rest, rfl⟩ := hend.exists_cons
    cases t with
    | comment style text => exact absurd rfl (hnot style text location rest)
    | _ => simp [peek, isComment]

/-! ## Literals -/

theorem startsIn_bound : StartsIn (fun t => isBound t = true) bound := .oneOf fun _ h => h

theorem viable_bound : Viable bound [] :=
  .oneOf (by decide) spelled_integer

theorem accounts_bound (hend : Ended ts) : Accounts bound F ts (Parser.bound ts) := by
  unfold Parser.bound
  split
  · exact accounts_one rfl (by simp) (not_mismatched_of_ne (by simp) _) hend
  · exact accounts_one rfl (by simp) (not_mismatched_of_ne (by simp) _) hend
  · split
    · rename_i hs
      exact accounts_one (decide_eq_true hs) (by simp) (not_mismatched_of_ne (by simp) _) hend
    · rename_i hs
      exact accounts_stop (by simp) viable_bound startsIn_bound (by simp [isBound, hs])
  · rename_i hfloat hinf hint
    refine accounts_fail hend viable_bound startsIn_bound ?_
    obtain ⟨⟨t, location⟩, rest, rfl⟩ := hend.exists_cons
    cases t with
    | float text => exact absurd rfl (hfloat text location rest)
    | infinity text => exact absurd rfl (hinf text location rest)
    | integer text => exact absurd rfl (hint text location rest)
    | _ => simp [peek, isBound]

theorem accounts_decoration (hend : Ended ts) :
    Accounts decoration (· ≠ .punct .underscore) ts (Parser.decoration ts) := by
  have hstart : StartsIn (fun t => isDecoration t = true) (oneOf isDecoration) :=
    .oneOf fun _ h => h
  have hviable : Viable (oneOf isDecoration) [] :=
    .oneOf rfl (Token.spelled_decoration .trivial)
  unfold Parser.decoration
  split
  · rename_i location rest
    have hrest : Ended rest := hend.tail (by simp)
    refine Accounts.present (Accounts.cons ?_ rfl (by simp) (not_mismatched_of_ne (by simp) _) hend)
      (by simp [peek])
    split
    · exact accounts_one rfl (by simp) (not_mismatched_of_ne (by simp) _) hrest
    · rename_i hnot
      refine accounts_fail hrest hviable hstart ?_
      obtain ⟨⟨t, location⟩, rest, rfl⟩ := hrest.exists_cons
      cases t with
      | decoration d => exact absurd rfl (hnot d location rest)
      | _ => simp [peek, isDecoration]
  · rename_i hnot
    have hunder : StartsIn (· = Token.punct .underscore)
        (tok (.punct .underscore) * oneOf isDecoration) := (startsIn_tok _).mul _
    refine accounts_absent hend hunder ?_
    obtain ⟨⟨t, location⟩, rest, rfl⟩ := hend.exists_cons
    rintro rfl
    exact hnot location rest rfl

theorem viable_closing : Viable (tok (.punct .closeBracket) * decoration) [] :=
  (viable_punct _).mul (.option _)

/-- The bounds behind an opening bracket that starts no interval with bounds of different types. -/
theorem accounts_bounds {location : Location}
    (hsame : ¬ Mismatched (⟨.punct .openBracket, location⟩ :: ts)) (hend : Ended ts) :
    Accounts bounds (· ≠ .punct .underscore) ts (do
      let (inf, rest) ← Parser.bound ts
      let (_, rest) ← expect (.punct .comma) .comma rest
      let (sup, rest) ← Parser.bound rest
      let (_, rest) ← expect (.punct .closeBracket) .closeBracket rest
      match Interval.ofBounds inf sup none with
      | .error e => .error (.node e, location)
      | .ok interval =>
        let (d, rest) ← Parser.decoration rest
        return (interval.decorate d, rest)) := by
  have htail : Viable (bound * (tok (.punct .closeBracket) * decoration)) [] :=
    viable_bound.mul viable_closing
  refine (accounts_bound hend).seq ((viable_punct _).mul htail) ?_
  rintro ⟨a, inf⟩ rest₁ hinf hend₁
  refine (accounts_punct (by decide) hend₁).seq htail ?_
  rintro _ rest₂ hcomma hend₂
  refine (accounts_bound hend₂).seq viable_closing ?_
  rintro ⟨b, sup⟩ rest₃ hsup hend₃
  refine (accounts_punct (by decide) hend₃).seq (.option _) ?_
  rintro _ rest₄ hclose hend₄
  have htypes : a = b := by
    by_contra hne
    obtain ⟨l, rfl⟩ := Grammar.expect_eq_ok_iff.mp hcomma
    obtain ⟨l', rfl⟩ := Grammar.expect_eq_ok_iff.mp hclose
    obtain ⟨is, rfl, hi⟩ := Grammar.bound_sound hinf
    obtain ⟨ss, rfl, hs⟩ := Grammar.bound_sound hsup
    obtain ⟨t, lt, rfl, -⟩ := hi.exists_cons
    obtain ⟨u, lu, rfl, -⟩ := hs.exists_cons
    exact hsame ⟨_, a, b, .mk location l l' hi hs hne, rest₄, rfl⟩
  subst htypes
  simp only [Interval.ofBounds, if_true]
  exact (accounts_decoration hend₄).map _

theorem isBound_of_phrase {l : Lexeme} {b : FloatType × Scalar} (h : Grammar.IsBound [l] b) :
    isBound l.token = true := by
  cases h with
  | float | infinity => rfl
  | integer hs => exact decide_eq_true hs

theorem Mismatch.mem_interval {i : List Lexeme} {a b : FloatType} (h : Mismatch i a b) :
    i.map Lexeme.token ∈ interval := by
  obtain ⟨l, l', l'', hi, hs, -⟩ := h
  have htok : ∀ t, [t] ∈ tok t := fun t => ⟨t, decide_eq_true rfl, rfl⟩
  have hone : ∀ {inf : Lexeme} {b}, Grammar.IsBound [inf] b → [inf.token] ∈ bound :=
    fun h => ⟨_, isBound_of_phrase h, rfl⟩
  refine Language.append_mem_mul (htok _) (.inr (.inr ?_))
  refine Language.append_mem_mul (hone hi) (Language.append_mem_mul (htok _) ?_)
  exact Language.append_mem_mul (hone hs) (Language.append_mem_mul (htok _) (.inl rfl))

/-- An interval with bounds of different types is refused at its opening bracket. -/
theorem Mismatch.intervalTail_eq {i rest : List Lexeme} {a b : FloatType} {location : Location}
    (h : Mismatch i a b) (heq : i ++ rest = ⟨.punct .openBracket, location⟩ :: ts) :
    Parser.intervalTail location ts = .error (.node (.boundTypes a b), location) := by
  obtain ⟨l, l', l'', hi, hs, hne⟩ := h
  rename_i inf sup s s'
  obtain ⟨t, lt, ⟨⟩, ht⟩ := hi.exists_cons
  obtain ⟨-, rfl⟩ := List.cons.inj heq
  have hinf : Parser.bound (⟨t, lt⟩ :: ⟨.punct .comma, l'⟩ :: sup :: ⟨.punct .closeBracket, l''⟩ ::
      rest) = .ok ((a, s), _) := Grammar.bound_complete hi trivial
  have hsup : Parser.bound (sup :: ⟨.punct .closeBracket, l''⟩ :: rest) = .ok ((b, s'), _) :=
    Grammar.bound_complete hs trivial
  unfold Parser.intervalTail
  split
  · rename_i hspecial
    exact absurd (congrArg Lexeme.token (List.cons.inj hspecial).1) (ht _ _)
  · simp [hinf, hsup, Grammar.expect_cons, bind, Except.bind, Interval.ofBounds, hne]

theorem startsIn_undecorated : StartsIn (fun t => isUndecorated t = true) undecorated :=
  (StartsIn.oneOf fun _ h => h).mul _

theorem startsIn_entire : StartsIn (fun t => isEntire t = true) entire :=
  (StartsIn.oneOf fun _ h => h).mul _

theorem startsIn_bounds : StartsIn (fun t => isBound t = true) bounds := startsIn_bound.mul _

/-- An interval without bounds, behind its opening bracket. -/
theorem accounts_special {kind : SpecialKind} {text : String} {l location : Location}
    (hend : Ended (⟨.special kind text, l⟩ :: ts)) :
    Accounts (undecorated + (entire + bounds)) (· ≠ .punct .underscore)
      (⟨.special kind text, l⟩ :: ts)
      (Parser.intervalTail location (⟨.special kind text, l⟩ :: ts)) := by
  have hts : Ended ts := hend.tail (by simp)
  have hother : StartsIn (fun t => isEntire t = true ∨ isBound t = true) (entire + bounds) :=
    (startsIn_entire.mono fun _ => .inl).add (startsIn_bounds.mono fun _ => .inr)
  by_cases hk : kind = .entire
  · subst hk
    have hentire : Accounts entire (· ≠ .punct .underscore) (⟨.special .entire text, l⟩ :: ts)
        (Parser.intervalTail location (⟨.special .entire text, l⟩ :: ts)) := by
      refine Accounts.cons ?_ rfl (by simp) (not_mismatched_of_ne (by simp) _) hend
      refine (accounts_punct (by decide) hts).seq (.option _) ?_
      rintro _ rest - hrest
      exact (accounts_decoration hrest).map _
    exact (hentire.choose_left startsIn_bounds (by simp [peek, isBound])).choose_right
      startsIn_undecorated (by simp [peek, isUndecorated])
  · have hundecorated : Accounts undecorated (· ≠ .punct .underscore)
        (⟨.special kind text, l⟩ :: ts)
        (Parser.intervalTail location (⟨.special kind text, l⟩ :: ts)) := by
      refine Accounts.cons ?_ (decide_eq_true hk) (by simp) (not_mismatched_of_ne (by simp) _) hend
      simp only [Parser.intervalTail, hk, if_false]
      exact Accounts.map (accounts_punct (by decide) hts) fun _ => Interval.special kind _ none
    exact hundecorated.choose_left hother (by simp [peek, isEntire, isBound, hk])

theorem accounts_interval {location : Location}
    (hend : Ended (⟨.punct .openBracket, location⟩ :: ts)) :
    Accounts interval (· ≠ .punct .underscore) (⟨.punct .openBracket, location⟩ :: ts)
      (Parser.intervalTail location ts) := by
  by_cases hmis : Mismatched (⟨.punct .openBracket, location⟩ :: ts)
  · obtain ⟨i, a, b, hi, rest, heq⟩ := hmis
    have hloc : (peek i).location = location := by
      cases hi
      cases heq
      rfl
    rw [hi.intervalTail_eq heq, ← heq, ← hloc]
    exact .mismatch (show i ++ rest = [] ++ (i ++ rest) from rfl) trivial hi
      ⟨[], allSpelled_nil, by simpa using hi.mem_interval⟩
  · refine Accounts.cons ?_ (decide_eq_true rfl) (by simp) hmis hend
    have hts : Ended ts := hend.tail (by simp)
    obtain ⟨⟨t, l⟩, rest, rfl⟩ := hts.exists_cons
    by_cases hspecial : ∃ kind text, t = .special kind text
    · obtain ⟨kind, text, rfl⟩ := hspecial
      exact accounts_special hts
    · have hnot : ¬ (isUndecorated t = true ∨ isEntire t = true) := by
        cases t with
        | special kind text => exact absurd ⟨kind, text, rfl⟩ hspecial
        | _ => simp [isUndecorated, isEntire]
      rw [not_or] at hnot
      unfold Parser.intervalTail
      split
      · rename_i heq
        exact absurd ⟨_, _, congrArg Lexeme.token (List.cons.inj heq).1⟩ hspecial
      · exact ((accounts_bounds hmis hts).choose_right startsIn_entire hnot.2).choose_right
          startsIn_undecorated hnot.1

theorem startsIn_interval : StartsIn (· = .punct .openBracket) interval := (startsIn_tok _).mul _

/-- A literal starts with a token at which the parser looks for one. -/
theorem startsIn_literal :
    StartsIn (fun t => Parser.startsLiteral t = true ∧ t ≠ .punct .underscore) literal := by
  refine StartsIn.add (.oneOf fun t ht => ?_) (startsIn_interval.mono ?_)
  · cases t <;> simp_all [isPlain, Parser.startsLiteral]
  · rintro _ rfl
    decide

theorem viable_literal : Viable literal [] :=
  (Viable.oneOf rfl spelled_integer).mono fun _ h => .inl h

theorem accounts_literal (hend : Ended ts) :
    Accounts literal (· ≠ .punct .underscore) ts (Parser.literal ts) := by
  obtain ⟨⟨t, l⟩, rest, rfl⟩ := hend.exists_cons
  have hplain : isPlain t = true → ∀ a : Literal,
      Accounts literal (· ≠ .punct .underscore) (⟨t, l⟩ :: rest) (.ok (a, rest)) := by
    intro ht a
    have hopen : t ≠ .punct .openBracket := by rintro rfl; cases ht
    have hend' : t ≠ .endOfFile := by rintro rfl; cases ht
    exact (accounts_one ht hend' (not_mismatched_of_ne hopen rest) hend).choose_left
      startsIn_interval hopen
  cases t with
  | integer | float | infinity | string | boolean | overlap => exact hplain rfl _
  | punct p =>
    cases p with
    | openBracket =>
      have hinterval := (accounts_interval hend).map Literal.interval
      exact hinterval.choose_right (StartsIn.oneOf fun _ h => h) (by simp [peek, isPlain])
    | _ =>
      exact accounts_fail hend viable_literal startsIn_literal (by simp [peek, Parser.startsLiteral])
  | _ =>
    exact accounts_fail hend viable_literal startsIn_literal (by simp [peek, Parser.startsLiteral])

/-! ## Tests -/

theorem accounts_literals (hend : Ended ts) :
    Accounts literals Grammar.EndsLiteral ts (Parser.literals ts) :=
  (accounts_repeatWhile (fun _ => accounts_literal) startsIn_literal hend).mono fun _ => And.symm

theorem viable_literals : Viable literals [] := viable_literal.mul (.star _)

theorem accounts_inputs (hend : Ended ts) :
    Accounts literal∗ Grammar.EndsLiteral ts (Parser.inputs ts) := by
  unfold Parser.inputs
  split
  · rename_i hstart
    exact (accounts_literals hend).star_present fun h => by simp [h.1] at hstart
  · rename_i hstart
    exact accounts_star_absent hend startsIn_literal fun h => hstart h.1

theorem startsIn_tightest : StartsIn (· = .punct .equals) tightest := (startsIn_tok _).mul _

theorem startsIn_accurate : StartsIn (· = .punct .less) accurate := (startsIn_tok _).mul _

theorem accounts_tightest {l : Location} (hend : Ended (⟨.punct .equals, l⟩ :: ts)) :
    Accounts tightest Grammar.EndsLiteral (⟨.punct .equals, l⟩ :: ts)
      (Parser.tightest (⟨.punct .equals, l⟩ :: ts)) := by
  refine Accounts.cons ?_ (decide_eq_true rfl) (by simp) (not_mismatched_of_ne (by simp) _) hend
  exact (accounts_literals (hend.tail (by simp))).map some

theorem accounts_accurate {l : Location} (hend : Ended (⟨.punct .less, l⟩ :: ts)) :
    Accounts accurate Grammar.EndsLiteral (⟨.punct .less, l⟩ :: ts)
      (Parser.accurate (⟨.punct .less, l⟩ :: ts)) := by
  refine Accounts.cons ?_ (decide_eq_true rfl) (by simp) (not_mismatched_of_ne (by simp) _) hend
  refine (accounts_punct (by decide) (hend.tail (by simp))).seq viable_literals ?_
  intro _ rest _ hrest
  exact (accounts_literals hrest).map some

theorem tightest_eq_none (h : (peek ts).token ≠ .punct .equals) :
    Parser.tightest ts = .ok (none, ts) := by
  unfold Parser.tightest
  split
  · exact absurd rfl h
  · rfl

theorem accurate_eq_none (h : (peek ts).token ≠ .punct .less) :
    Parser.accurate ts = .ok (none, ts) := by
  unfold Parser.accurate
  split
  · exact absurd rfl h
  · rfl

/-- Where the sign of the tightest outputs stands, they are there. -/
theorem exists_of_tightest {l : Location} {rest : List Lexeme} {o : Option (List Literal)}
    (h : Parser.tightest (⟨.punct .equals, l⟩ :: ts) = .ok (o, rest)) : ∃ os, o = some os := by
  simp only [Parser.tightest, bind_eq_ok_iff, Prod.exists, pure_eq_ok_iff, Prod.mk.injEq] at h
  obtain ⟨os, _, _, rfl, _⟩ := h
  exact ⟨os, rfl⟩

theorem exists_of_accurate {l : Location} {rest : List Lexeme} {o : Option (List Literal)}
    (h : Parser.accurate (⟨.punct .less, l⟩ :: ts) = .ok (o, rest)) : ∃ os, o = some os := by
  simp only [Parser.accurate, bind_eq_ok_iff, Prod.exists, pure_eq_ok_iff, Prod.mk.injEq] at h
  obtain ⟨_, _, _, os, _, _, rfl, _⟩ := h
  exact ⟨os, rfl⟩

theorem Ended.eq_cons_of_peek {t : Token} (hend : Ended ts) (h : (peek ts).token = t) :
    ∃ l rest, ts = ⟨t, l⟩ :: rest := by
  obtain ⟨⟨u, l⟩, rest, rfl⟩ := hend.exists_cons
  obtain rfl : u = t := h
  exact ⟨l, rest, rfl⟩

/-- Optional accurate outputs. -/
theorem accounts_accurate_option (hend : Ended ts) :
    Accounts (1 + accurate) (fun t => Grammar.EndsLiteral t ∧ t ≠ .punct .less) ts
      (Parser.accurate ts) := by
  by_cases hless : (peek ts).token = .punct .less
  · obtain ⟨l, rest, rfl⟩ := hend.eq_cons_of_peek hless
    exact ((accounts_accurate hend).mono fun _ h => h.1).present fun h => h.2 rfl
  · rw [accurate_eq_none hless]
    exact accounts_absent hend startsIn_accurate hless

theorem viable_outputs : Viable (outputs * tok (.punct .semicolon)) [] := by
  have htightest : Viable tightest [] := (viable_punct _).mul viable_literals
  exact ((htightest.mul (.option _)).mono fun _ h => .inl h).mul (viable_punct .semicolon)

theorem startsIn_outputs :
    StartsIn (fun t => t = .punct .equals ∨ t = .punct .less) outputs :=
  ((startsIn_tightest.mono fun _ => .inl).mul _).add (startsIn_accurate.mono fun _ => .inr)

/-- The outputs of a test up to its semicolon. The next token tells whether the tightest outputs are
there; if they are not, the accurate ones must be. -/
theorem accounts_outputs (operation : String) (build : Outputs → Test) (hend : Ended ts) :
    Accounts (outputs * tok (.punct .semicolon)) F ts (do
      let (tightest, ts) ← Parser.tightest ts
      let (accurate, ts) ← Parser.accurate ts
      match Outputs.ofParts? tightest accurate with
      | none => fail (.outputs operation) ts
      | some outputs =>
        let (_, ts) ← expect (.punct .semicolon) .semicolon ts
        return (build outputs, ts)) := by
  have hclose : ∀ {rest o}, Ended rest → Accounts (tok (.punct .semicolon)) F rest (do
      let (_, ts) ← expect (.punct .semicolon) .semicolon rest
      return (build o, ts)) :=
    fun h => Accounts.map (accounts_punct (by decide) h) fun _ => build _
  have hsemi : ∀ {G : Token → Prop} {K}, G (.punct .semicolon) →
      StartsIn G (tok (.punct .semicolon) * K) := fun h => (StartsIn.tok h).mul _
  by_cases hequals : (peek ts).token = .punct .equals
  · obtain ⟨l, rest, rfl⟩ := hend.eq_cons_of_peek hequals
    rw [outputs, add_mul, mul_assoc]
    refine Accounts.choose_left ?_ (startsIn_accurate.mul _) (by simp [peek])
    refine (accounts_tightest hend).bind (fun K _ => ?_)
      ((Viable.option _).mul (viable_punct .semicolon)) ?_
    · rw [mul_assoc]
      refine (startsIn_accurate.mono ?_).option_mul (hsemi ⟨rfl, by simp⟩)
      rintro _ rfl
      exact ⟨rfl, by simp⟩
    intro o rest' ho hrest'
    obtain ⟨os, rfl⟩ := exists_of_tightest ho
    refine (accounts_accurate_option hrest').bind (fun K _ => hsemi ⟨⟨rfl, by simp⟩, by simp⟩)
      (viable_punct .semicolon) ?_
    intro o rest'' _ hrest''
    cases o with
    | none => exact hclose hrest''
    | some as => exact hclose hrest''
  · rw [tightest_eq_none hequals]
    by_cases hless : (peek ts).token = .punct .less
    · obtain ⟨l, rest, rfl⟩ := hend.eq_cons_of_peek hless
      rw [outputs, add_mul]
      refine Accounts.choose_right ?_ ((startsIn_tightest.mul _).mul _) hequals
      refine (accounts_accurate hend).bind (fun K _ => hsemi ⟨rfl, by simp⟩)
        (viable_punct .semicolon) ?_
      intro o rest' ho hrest'
      obtain ⟨os, rfl⟩ := exists_of_accurate ho
      exact hclose hrest'
    · change Accounts _ F ts (Parser.accurate ts >>= _)
      rw [accurate_eq_none hless]
      exact accounts_fail hend viable_outputs (startsIn_outputs.mul _) (by simp [hequals, hless])

theorem startsIn_operation : StartsIn (fun t => isOperation t = true) (oneOf isOperation) :=
  .oneOf fun _ h => h

theorem viable_operation : Viable (oneOf isOperation) [] :=
  .oneOf rfl spelled_identifier

theorem accounts_operation (hend : Ended ts) :
    Accounts (oneOf isOperation) F ts (Parser.operation ts) := by
  unfold Parser.operation
  split
  · exact accounts_one rfl (by simp) (not_mismatched_of_ne (by simp) _) hend
  · split
    · rename_i htext
      exact accounts_one (decide_eq_true htext) (by simp) (not_mismatched_of_ne (by simp) _) hend
    · rename_i htext
      exact accounts_fail hend viable_operation startsIn_operation
        (by simp [peek, isOperation, htext])
  · rename_i hident hinf
    refine accounts_fail hend viable_operation startsIn_operation ?_
    obtain ⟨⟨t, l⟩, rest, rfl⟩ := hend.exists_cons
    cases t with
    | identifier name => exact absurd rfl (hident name l rest)
    | infinity text => exact absurd rfl (hinf text l rest)
    | _ => simp [peek, isOperation]

theorem accounts_test (hend : Ended ts) : Accounts test F ts (Parser.test ts) := by
  have hinputs : Viable (literal∗ * (outputs * tok (.punct .semicolon))) [] :=
    (Viable.star _).mul viable_outputs
  have hcomments := accounts_comments hend
  refine hcomments.append (fun K _ => ?_) ?_
  · refine ((startsIn_operation.mono ?_).mul _).mul K
    intro t ht
    cases t <;> simp_all [isOperation, isComment]
  refine (accounts_operation hcomments.ended).seq hinputs ?_
  rintro operation rest₁ - hrest₁
  refine (accounts_inputs hrest₁).bind (fun K _ => ?_) viable_outputs ?_
  · refine ((startsIn_outputs.mono ?_).mul _).mul K
    rintro _ (rfl | rfl) <;> exact ⟨rfl, by simp⟩
  rintro inputs rest₂ - hrest₂
  exact accounts_outputs operation (fun o => ⟨operation, inputs, o, (Parser.comments ts).1, _⟩)
    hrest₂

/-- A test starts with a comment or the name of its operation. -/
theorem startsIn_test : StartsIn (fun t => isComment t = true ∨ isOperation t = true) test :=
  (StartsIn.oneOf fun _ => .inl).star_mul ((startsIn_operation.mono fun _ => .inr).mul _)

theorem viable_test : Viable test [] :=
  (Viable.star _).mul (viable_operation.mul ((Viable.star _).mul viable_outputs))

/-! ## Testcases -/

theorem startsIn_identifier : StartsIn (fun t => isIdentifier t = true) (oneOf isIdentifier) :=
  .oneOf fun _ h => h

theorem viable_identifier : Viable (oneOf isIdentifier) [] :=
  .oneOf rfl spelled_identifier

theorem viable_name : Viable name [] := viable_identifier.mul (.star _)

theorem accounts_nameTail (hend : Ended ts) :
    Accounts (tok (.punct .dot) * oneOf isIdentifier)∗ (· ≠ .punct .dot) ts
      (Parser.nameTail ts) := by
  fun_induction Parser.nameTail ts with
  | case1 l part l' rest ih =>
    have hnext := hend.tail (by simp)
    refine Accounts.star_present ?_ (by simp [peek])
    rw [mul_assoc]
    refine Accounts.cons (Accounts.cons ?_ rfl (by simp) (not_mismatched_of_ne (by simp) _) hnext)
      (decide_eq_true rfl) (by simp) (not_mismatched_of_ne (by simp) _) hend
    exact (ih (hnext.tail (by simp))).map (part :: ·)
  | case2 l ts hnot =>
    have hnext := hend.tail (by simp)
    refine Accounts.star_present ?_ (by simp [peek])
    rw [mul_assoc]
    refine Accounts.cons ?_ (decide_eq_true rfl) (by simp) (not_mismatched_of_ne (by simp) _) hend
    refine accounts_fail hnext (viable_identifier.mul (.star _)) (startsIn_identifier.mul _) ?_
    obtain ⟨⟨t, l⟩, rest, rfl⟩ := hnext.exists_cons
    cases t with
    | identifier part => exact absurd rfl (hnot part l rest)
    | _ => simp [peek, isIdentifier]
  | case3 ts hnot =>
    refine accounts_star_absent hend ((startsIn_tok _).mul _) ?_
    intro h
    obtain ⟨l, rest, rfl⟩ := hend.eq_cons_of_peek h
    exact hnot l rest rfl

theorem accounts_name (hend : Ended ts) :
    Accounts name (· ≠ .punct .dot) ts (Parser.name ts) := by
  unfold Parser.name
  split
  · refine Accounts.cons ?_ rfl (by simp) (not_mismatched_of_ne (by simp) _) hend
    exact (accounts_nameTail (hend.tail (by simp))).map _
  · rename_i hnot
    refine accounts_fail hend viable_name (startsIn_identifier.mul _) ?_
    obtain ⟨⟨t, l⟩, rest, rfl⟩ := hend.exists_cons
    cases t with
    | identifier part => exact absurd rfl (hnot part l rest)
    | _ => simp [peek, isIdentifier]

theorem accounts_testcase (comments : List Comment) (hend : Ended ts) :
    Accounts testcase F ts (Parser.testcase comments ts) := by
  have htests : Viable (test * test∗ * tok (.punct .closeBrace)) [] :=
    (viable_test.mul (.star _)).mul (viable_punct _)
  have hopen : Viable (tok (.punct .openBrace) * (test * test∗ * tok (.punct .closeBrace))) [] :=
    (viable_punct _).mul htests
  refine (accounts_expect (by simp) (by simp) Token.spelled_testcase hend).seq
    (viable_name.mul hopen) ?_
  intro _ rest₁ _ hrest₁
  refine (accounts_name hrest₁).bind (fun K _ => ?_) hopen ?_
  · exact ((StartsIn.tok (by simp)).mul _).mul K
  intro parts rest₂ _ hrest₂
  refine (accounts_punct (by decide) hrest₂).seq htests ?_
  intro _ rest₃ _ hrest₃
  -- A test needs no particular token behind it, so the loop goes on up to the closing brace.
  have hstart : StartsIn (fun t => decide (t ≠ .punct .closeBrace) = true ∧ True) test := by
    refine startsIn_test.mono ?_
    rintro t (ht | ht) <;> cases t <;> simp_all [isComment, isOperation]
  refine (accounts_repeatWhile (fun _ => accounts_test) hstart hrest₃).bind (fun K _ => ?_)
    (viable_punct _) ?_
  · exact (StartsIn.tok (by simp)).mul K
  intro tests rest₄ _ hrest₄
  exact Accounts.map (accounts_punct (by decide) hrest₄) fun _ => _

theorem startsIn_testcase : StartsIn (· = .testcase) testcase := (startsIn_tok _).mul _

/-- No testcase starts with a comment, so all comments in front of it have been read. -/
theorem startsIn_testcase_mul (K : Language Token) :
    StartsIn (fun t => isComment t = false) (testcase * K) := by
  refine (startsIn_testcase.mono ?_).mul K
  rintro _ rfl
  rfl

theorem accounts_commentedTestcase (hend : Ended ts) :
    Accounts commentedTestcase F ts (Parser.commentedTestcase ts) := by
  have hcomments := accounts_comments hend
  exact hcomments.append (fun K _ => startsIn_testcase_mul K) (accounts_testcase _ hcomments.ended)

/-- A testcase with its comments starts with a comment or the word for a testcase. -/
theorem startsIn_commentedTestcase :
    StartsIn (fun t => isComment t = true ∨ t = .testcase) commentedTestcase :=
  (StartsIn.oneOf fun _ => .inl).star_mul (startsIn_testcase.mono fun _ => .inr)

theorem accounts_testcases (hend : Ended ts) :
    Accounts commentedTestcase∗ (· = .endOfFile) ts (Parser.testcases ts) := by
  have hstart : StartsIn (fun t => decide (t ≠ .endOfFile) = true ∧ True) commentedTestcase := by
    refine startsIn_commentedTestcase.mono ?_
    rintro t (ht | rfl)
    · cases t <;> simp_all [isComment]
    · simp
  unfold Parser.testcases
  split
  · rename_i heof
    exact accounts_star_absent hend hstart (by simp [heof])
  · rename_i heof
    have hloop := accounts_repeatWhile (fun _ => accounts_commentedTestcase) hstart hend
    exact (hloop.mono fun t ht => ⟨trivial, by simpa using ht⟩).star_present heof

/-- **The parser reads the outline.** Whatever the parser does with lexemes that have an end, the
outline of documents explains it. -/
theorem accounts_document (fileName : String) (hend : Ended ts) :
    Accounts body (· = .endOfFile) ts (Parser.document fileName ts) := by
  have hcomments := accounts_comments hend
  refine hcomments.append (fun K _ => (startsIn_testcase_mul _).mul K) ?_
  refine (accounts_testcase _ hcomments.ended).seq (.star _) ?_
  intro first rest _ hrest
  exact (accounts_testcases hrest).map fun others =>
    Document.mk fileName (Parser.comments ts).1.head? (first :: others)

end IntervalSuite.Itl.Outline
