import IntervalSuite.Proofs.Pattern.Guarded

/-!
# Reading patterns

Every reader of patterns is guarded: a closing parenthesis that it does not pass over is left over,
and what stands behind it has no part in what is read.

* `guarded_escape?`, `guarded_class?`: escapes and classes.
* `guarded_repeated?`, `guarded_opening?`: the signs behind a term and at the start of a group.
* `guarded_choice?`: choices, sequences and terms, which read one another.
-/

namespace IntervalSuite.Pattern

variable {verbose : Bool}

/-! ## Escapes -/

theorem guarded_hexDigits? (n : Nat) : Guarded (hexDigits? verbose n) := by
  induction n with
  | zero => exact guarded_some []
  | succ n ih =>
    refine (guarded_next? verbose).bind fun c => guarded_if (fun _ => ?_) fun _ => guarded_none
    exact ih.map fun digits => ⟨c :: digits, fun _ => rfl⟩

theorem guarded_bracedDigits? : Guarded (bracedDigits? verbose) := by
  have hgather : Guarded fun cs => some (gather verbose (fun c => (hexDigit? c).isSome) false cs) :=
    guarded_gather (by decide)
  refine hgather.bind (k := fun r => (first? r.2).bind fun s =>
    if s.1 = '\x7d' ∧ r.1 ≠ [] then some (r.1, s.2) else none) fun digits => ?_
  refine guarded_first?.bind (k := fun s =>
    if s.1 = '\x7d' ∧ digits ≠ [] then some (digits, s.2) else none) fun c => ?_
  show Guarded fun cs => if c = '\x7d' ∧ digits ≠ [] then some (digits, cs) else none
  exact guarded_if (fun _ => guarded_some digits) fun _ => guarded_none

theorem guarded_codeDigits? (width : Nat) : Guarded (codeDigits? verbose width) :=
  (guarded_hexDigits? width).sign (d := '\x7b') (by decide) guarded_bracedDigits? rfl
    fun c cs hc => by simp [codeDigits?, hc]

theorem guarded_codePoint? (width : Nat) : Guarded (codePoint? verbose width) := by
  refine ((guarded_codeDigits? width).skip verbose).bind fun digits => ?_
  cases h : hexChar? digits with
  | none => simpa [h] using guarded_none
  | some c => simpa [h] using guarded_some (Atom.char c)

theorem guarded_escape? : Guarded (escape? verbose) := by
  refine .cons rfl fun c => guarded_if (fun _ => guarded_some _) fun _ => ?_
  split
  · exact guarded_some _
  · exact guarded_some _
  · exact guarded_some _
  · cases codePointEscapes.lookup c with
    | none => exact guarded_none
    | some width => exact guarded_codePoint? width

/-! ## Classes -/

theorem guarded_classAtom? (c : Char) : Guarded (classAtom? verbose c) :=
  guarded_if (fun _ => guarded_escape?) fun _ => guarded_some _

theorem peek_append (cs tail : List Char) :
    peek verbose (cs ++ ')' :: tail) = (peek verbose cs).or (some ')') := by
  have hblank := dropWhile_append_closing (p := Text.isBlank) (by decide)
  cases verbose with
  | false => cases cs <;> rfl
  | true =>
    simp only [peek, if_true, hblank]
    cases cs.dropWhile Text.isBlank with
    | nil => rfl
    | cons c rest =>
      by_cases hc : c = '#'
      · subst hc
        simp only [List.cons_append, hblank]
        cases rest.dropWhile Text.isBlank <;> rfl
      · simp [hc]

theorem makesRange_append (cs tail : List Char) :
    makesRange verbose (cs ++ ')' :: tail) = makesRange verbose cs := by
  cases cs with
  | nil => rfl
  | cons c cs =>
    by_cases hc : c = '-'
    · subst hc
      simp only [List.cons_append, makesRange, peek_append]
      cases peek verbose cs <;> rfl
    · simp [makesRange, hc]

theorem guarded_classRange? (first : Atom) : Guarded (classRange? verbose first) := by
  refine .ite makesRange_append ?_ (guarded_map first.set?)
  refine ((guarded_next? verbose).drop rfl).bind fun c => (guarded_classAtom? c).bind fun last => ?_
  exact guarded_map (first.range? last)

theorem guarded_classItem? (c : Char) : Guarded (classItem? verbose c) :=
  (guarded_classAtom? c).bind fun first => (guarded_classRange? first).skip verbose

theorem guarded_classSign : Guarded fun cs => some (classSign cs) :=
  (guarded_some false).sign (d := '^') (by decide) (guarded_some true) rfl
    fun c cs hc => by simp [classSign, hc]

theorem guarded_classBracket : Guarded fun cs => some (classBracket cs) :=
  (guarded_some .none).sign (d := ']') (by decide) (guarded_some (CharSet.single ']')) rfl
    fun c cs hc => by simp [classBracket, hc]

theorem guarded_classStart : Guarded fun cs => some (classStart verbose cs) := by
  have hgather : Guarded fun cs => some (gather verbose (· == '-') false cs) :=
    guarded_gather (by decide)
  refine hgather.bind (k := fun r =>
    some (if r.1.isEmpty then classBracket r.2 else (.single '-', r.2))) fun hyphens => ?_
  cases hyphens with
  | nil => exact guarded_classBracket
  | cons => exact guarded_some _

theorem leavesOver_classOperation? (c : Char) (cs : List Char) :
    LeavesOver (classOperation? c) cs := by
  intro tail
  cases cs with
  | nil =>
    by_cases hc : ')' = c
    · subst hc
      rfl
    · simp [classOperation?, hc]
  | cons d cs =>
    simp only [List.cons_append, classOperation?]
    split
    · cases classOperations.lookup c <;> rfl
    · rfl

theorem classOperation?_suffix (c : Char) (cs : List Char) (op : CharSet → CharSet → CharSet)
    (rest : List Char) (h : classOperation? c cs = some (op, rest)) : rest <:+ cs := by
  cases cs with
  | nil => cases h
  | cons d cs =>
    simp only [classOperation?] at h
    split at h
    · obtain ⟨b, -, hb⟩ := Option.map_eq_some_iff.mp h
      cases hb
      exact List.suffix_cons d _
    · cases h

theorem classSign_append (cs tail : List Char) :
    classSign (cs ++ ')' :: tail) = before (')' :: tail) (classSign cs) := by
  cases cs with
  | nil => rfl
  | cons c cs =>
    by_cases hc : c = '^'
    · subst hc
      rfl
    · simp [classSign, hc, before]

theorem leavesOver_namedSet? (cs : List Char) : LeavesOver namedSet? cs := by
  intro tail
  cases cs with
  | nil => rfl
  | cons c cs =>
    by_cases hc : c = ':'
    · subst hc
      simp only [List.cons_append, namedSet?, classSign_append, before]
      rw [dropWhile_append_closing (by decide), takeWhile_append_closing (by decide)]
      -- The name ends in front of the parenthesis; what is left tells whether it ends the class.
      generalize (classSign cs).2.dropWhile Char.isAlpha = rest
      rcases rest with _ | ⟨c, _ | ⟨d, rest⟩⟩
      · simp
      · simp
      · simp only [List.cons_append, List.take_succ_cons, List.take_zero, List.drop_succ_cons,
          List.drop_zero]
        split
        · simp [Function.comp_def, before]
        · rfl
    · simp [namedSet?, hc]

theorem namedSet?_suffix (cs : List Char) (set : CharSet) (rest : List Char)
    (h : namedSet? cs = some (set, rest)) : rest <:+ cs := by
  cases cs with
  | nil => cases h
  | cons c cs =>
    by_cases hc : c = ':'
    · subst hc
      simp only [namedSet?] at h
      split at h
      · obtain ⟨b, -, hb⟩ := Option.map_eq_some_iff.mp h
        cases hb
        have hsign := guarded_classSign.suffix cs _ _ rfl
        exact (List.drop_suffix 2 _).trans ((List.dropWhile_suffix _).trans
          (hsign.trans (List.suffix_cons ':' cs)))
      · cases h
    · simp [namedSet?, hc] at h

theorem guarded_class? (close : CharSet → CharSet) (fuel : Nat) :
    Guarded (class? verbose close fuel) ∧ ∀ state, Guarded (classItems? verbose close fuel state) := by
  induction fuel with
  | zero => exact ⟨guarded_none, fun _ => guarded_none⟩
  | succ fuel ih =>
    refine ⟨?_, fun state => ?_⟩
    · refine (guarded_classSign.skip verbose).bind (k := fun r => (classItems? verbose close fuel
        ⟨none, (classStart verbose r.2).1⟩ (classStart verbose r.2).2).map fun s =>
          (if r.1 then .compl (close s.1) else close s.1, s.2)) fun negated => ?_
      refine guarded_classStart.bind (k := fun r => (classItems? verbose close fuel
        ⟨none, r.1⟩ r.2).map fun s =>
          (if negated then .compl (close s.1) else close s.1, s.2)) fun first => ?_
      exact (ih.2 ⟨none, first⟩).map fun set =>
        ⟨if negated then .compl (close set) else close set, fun _ => rfl⟩
    · refine (guarded_next? verbose).bind fun c => ?_
      refine guarded_if (fun _ => guarded_some _) fun _ => ?_
      have hentry : Guarded fun cs => if c = '[' then namedSet? cs <|> class? verbose close fuel cs
          else classItem? verbose c cs :=
        guarded_if (fun _ => .alternative namedSet?_suffix leavesOver_namedSet? ih.1)
          fun _ => guarded_classItem? c
      have hmore : Guarded fun cs => (if c = '[' then namedSet? cs <|> class? verbose close fuel cs
          else classItem? verbose c cs).bind fun r =>
            classItems? verbose close fuel ⟨state.pending, .union state.union r.1⟩ r.2 :=
        hentry.bind fun set => ih.2 ⟨state.pending, .union state.union set⟩
      exact .orElse (classOperation?_suffix c) (leavesOver_classOperation? c)
        (k := fun r => classItems? verbose close fuel ⟨some (r.1, state.result close), .none⟩ r.2)
        (fun op => ih.2 ⟨some (op, state.result close), .none⟩) hmore
        (fun cs r h => by simp [h]) fun cs h => by simp [h]

/-! ## Repetitions -/

theorem guarded_count? : Guarded (count? verbose) := by
  have hdigits : Guarded fun cs => some (gather verbose Char.isDigit false cs) :=
    guarded_gather (by decide)
  have hblank : Guarded fun cs => some ((), cs.dropWhile Text.isBlank) :=
    guarded_dropWhile (by decide)
  refine hblank.bind (k := fun r => (countOf? (gather verbose Char.isDigit false r.2).1).map
    (·, (gather verbose Char.isDigit false r.2).2.dropWhile Text.isBlank)) fun _ => ?_
  refine hdigits.bind (k := fun r => (countOf? r.1).map (·, r.2.dropWhile Text.isBlank))
    fun digits => ?_
  dsimp only
  cases countOf? digits with
  | none => exact guarded_none
  | some n => exact hblank.map (k := fun r => (n, r.2)) fun _ => ⟨n, fun _ => rfl⟩

theorem guarded_upperBound? (least : Nat) : Guarded (upperBound? verbose least) := by
  have hmost : Guarded fun cs => (count? verbose cs).bind fun r => (first? r.2).bind fun s =>
      if s.1 = '\x7d' ∧ least ≤ r.1 then some ((⟨least, some r.1⟩ : Bounds), s.2) else none := by
    refine guarded_count?.bind fun most => ?_
    refine guarded_first?.bind (k := fun s =>
      if s.1 = '\x7d' ∧ least ≤ most then some ((⟨least, some most⟩ : Bounds), s.2) else none)
      fun c => ?_
    show Guarded fun cs =>
      if c = '\x7d' ∧ least ≤ most then some ((⟨least, some most⟩ : Bounds), cs) else none
    exact guarded_if (fun _ => guarded_some _) fun _ => guarded_none
  exact hmost.sign (d := '\x7d') (by decide) (guarded_some _) rfl
    fun c cs hc => by simp [upperBound?, hc]

theorem guarded_bounds? : Guarded (bounds? verbose) := by
  refine guarded_count?.bind fun least => guarded_first?.bind fun c => ?_
  refine guarded_if (fun _ => guarded_some _) fun _ => guarded_if (fun _ => ?_) fun _ => guarded_none
  exact (guarded_upperBound? least).skip verbose

/-- A repetition sign is passed over; other characters are left over. -/
theorem repetition?_cons (c : Char) :
    (c ≠ ')' ∧ Guarded fun cs => repetition? verbose (c :: cs)) ∨
      ∀ cs, repetition? verbose (c :: cs) = some (none, c :: cs) := by
  by_cases hstar : c = '*'
  · subst hstar
    exact .inl ⟨by decide, guarded_some _⟩
  by_cases hplus : c = '+'
  · subst hplus
    exact .inl ⟨by decide, guarded_some _⟩
  by_cases hmark : c = '?'
  · subst hmark
    exact .inl ⟨by decide, guarded_some _⟩
  by_cases hbrace : c = '\x7b'
  · subst hbrace
    refine .inl ⟨by decide, ?_⟩
    have hskip : ∀ bounds : Bounds, Guarded fun cs => some (some bounds, skip verbose cs) :=
      fun bounds => (guarded_skip verbose).map (k := fun r => (some bounds, r.2)) fun _ =>
        ⟨some bounds, fun _ => rfl⟩
    show Guarded fun cs => (bounds? verbose cs).map fun r => (some r.1, skip verbose r.2)
    simp only [Option.map_eq_bind]
    exact guarded_bounds?.bind hskip
  · exact .inr fun cs => by simp [repetition?, hstar, hplus, hmark, hbrace]

theorem guarded_repetition? : Guarded (repetition? verbose) :=
  (guarded_some none).branch rfl repetition?_cons

theorem guarded_lazySign : Guarded fun cs => some (lazySign cs) :=
  (guarded_some false).sign (d := '?') (by decide) (guarded_some true) rfl
    fun c cs hc => by simp [lazySign, hc]

theorem guarded_repeated? (flags : Flags) (fuel : Nat) (term : Regex) :
    Guarded (repeated? flags fuel term) := by
  induction fuel generalizing term with
  | zero => exact guarded_none
  | succ fuel ih =>
    refine (guarded_repetition?.skip flags.verbose).bind fun sign => ?_
    cases sign with
    | none => exact guarded_some term
    | some bounds =>
      refine guarded_lazySign.bind (k := fun r => repeated? flags fuel
        (.repetition term bounds.least bounds.most (r.1 == flags.swapGreed)) r.2) fun lazy => ?_
      exact ih (.repetition term bounds.least bounds.most (lazy == flags.swapGreed))

/-! ## Groups -/

theorem guarded_groupName? : Guarded groupName? := by
  refine (guarded_until? _).bind fun name => ?_
  exact guarded_if (fun _ => guarded_some _) fun _ => guarded_none

theorem guarded_flagOpening? (flags : Flags) : Guarded (flagOpening? flags) := by
  refine (guarded_until? _).bind fun a => ?_
  obtain ⟨letters, c⟩ := a
  cases h : flags.setAll? [] true letters with
  | none => simpa [h] using guarded_none
  | some flags =>
    simp only [h]
    refine guarded_if (fun _ => guarded_some _) fun _ => ?_
    exact guarded_if (fun _ => guarded_none) fun _ => guarded_some _

theorem flagOpening?_unknown (flags : Flags) (cs : List Char) :
    flagOpening? flags ('P' :: cs) = none := by
  simp only [flagOpening?, until?]
  cases until? (fun c => c == ':' || c == ')') cs <;> simp [Flags.setAll?, Flags.set?]

theorem guarded_opening? (flags : Flags) : Guarded (opening? flags) := by
  refine (guarded_some (.capture none)).sign (d := '?') (by decide) ?_ rfl
    fun c cs hc => by simp [opening?, hc]
  refine (guarded_flagOpening? flags).branch rfl fun d => ?_
  by_cases hname : d = '<'
  · subst hname
    exact .inl ⟨by decide, guarded_groupName?⟩
  by_cases hlong : d = 'P'
  · subst hlong
    -- `P` is no flag, so a group that starts with it has a name or is none.
    refine .inl ⟨by decide, guarded_none.sign (d := '<') (by decide) guarded_groupName? ?_ ?_⟩
    · exact flagOpening?_unknown flags []
    · exact fun c cs hc => by simpa [opening?, hc] using flagOpening?_unknown flags (c :: cs)
  · exact .inr fun cs => by simp [opening?, hname, hlong]

theorem guarded_closed (body : Option Regex × Context) : Guarded (term?.closed body) := by
  refine .cons rfl fun c => ?_
  by_cases hc : c = ')'
  · subst hc
    exact guarded_some body
  · simpa [term?.closed, hc] using guarded_none

/-! ## Terms -/

/-- **Every reader is guarded.** -/
theorem guarded_choice? (fuel : Nat) :
    (∀ ctx, Guarded (choice? fuel ctx)) ∧ (∀ ctx, Guarded (sequence? fuel ctx)) ∧
      ∀ ctx c, Guarded (term? fuel ctx c) := by
  induction fuel with
  | zero => exact ⟨fun _ => guarded_none, fun _ => guarded_none, fun _ _ => guarded_none⟩
  | succ fuel ih =>
    obtain ⟨hchoice, hsequence, hterm⟩ := ih
    -- Each case goes along its reader, with the readers of parts that have less fuel.
    refine ⟨fun ctx => ?_, fun ctx => ?_, fun ctx c => ?_⟩
    · refine ((hsequence ctx).skip ctx.flags.verbose).bind fun a => ?_
      obtain ⟨first, ctx⟩ := a
      refine (guarded_some (first, ctx)).sign (d := '|') (by decide) ?_ rfl
        fun c cs hc => by simp [hc]
      exact (hchoice ctx).bind fun b => guarded_some (Regex.alt first b.1, b.2)
    · refine (guarded_some (Regex.empty, ctx)).branch rfl fun c => ?_
      by_cases hc : c = '|' ∨ c = ')'
      · exact .inr fun cs => by simp [sequence?, hc]
      · refine .inl ⟨fun h => hc (.inr h), ?_⟩
        simp only [sequence?, if_neg hc]
        refine (hterm ctx c).bind fun a => ?_
        obtain ⟨term, ctx⟩ := a
        cases term with
        | none => exact (hsequence ctx).skip ctx.flags.verbose
        | some term =>
          dsimp only
          refine (guarded_repeated? ctx.flags fuel term).bind fun term => ?_
          dsimp only
          refine (hsequence ctx).bind fun b => ?_
          exact guarded_some (Regex.seq term b.1, b.2)
    · refine guarded_if (fun _ => ?_) fun _ => ?_
      · refine ((guarded_opening? ctx.flags).skip ctx.flags.verbose).bind fun opening => ?_
        cases opening with
        | flags flags => exact guarded_some _
        | plain flags => exact (hchoice _).bind fun a => guarded_closed _
        | capture name =>
          cases h : ctx.open? name with
          | none => simpa [h] using guarded_none
          | some start =>
            simp only [h]
            exact (hchoice start).bind fun a => guarded_closed
              (some (.group (ctx.groups + 1) a.1), ⟨ctx.flags, a.2.groups, a.2.names⟩)
      · refine guarded_if (fun _ => ?_) fun _ => guarded_if (fun _ => ?_) fun _ => ?_
        · exact (guarded_class? ctx.flags.close fuel).1.map fun set =>
            ⟨(some (.set set), ctx), fun _ => rfl⟩
        · exact guarded_escape?.map fun atom => ⟨(some (ctx.flags.term atom), ctx), fun _ => rfl⟩
        · cases ctx.flags.plainTerm? c with
          | none => exact guarded_none
          | some term => exact guarded_some _

end IntervalSuite.Pattern
