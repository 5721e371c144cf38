import IntervalSuite.Proofs.Itl.Constant

/-!
# Numbers are scanned by maximal munch

A constant at the start of a text may go on in many ways: with more digits, a point, an exponent or a
suffix. The scanner decides for each of them before it knows what follows, and falls back where the
part that it has begun is not complete.

* `Constant.WellFormed.isPrefix_leadingConstant`: the scanner takes at least as much as any constant
  at the start of the text.
* `leadingConstant_eq_iff`: so what it takes is the longest one, and its kind is that of the text.
* `leadingConstant_cut`: a blank that is put somewhere behind a constant does not change it.
-/

namespace IntervalSuite.Itl

open Text

/-! ## Where numbers start -/

theorem startsNumber_cons {c : Char} (hdot : c ≠ '.') (cs : List Char) :
    startsNumber (c :: cs) = c.isDigit := by
  rw [startsNumber.eq_def]
  split <;> simp_all

theorem startsNumber_of_isDigit {d : Char} (h : d.isDigit) (cs : List Char) :
    startsNumber (d :: cs) = true := by
  rw [startsNumber_cons (by rintro rfl; revert h; decide)]
  exact h

theorem Mantissa.startsNumber {m : List Char} {point : Bool} (hm : Mantissa Char.isDigit m point)
    (rest : List Char) : startsNumber (m ++ rest) = true := by
  cases hm with
  | whole h =>
    cases m with
    | nil => exact absurd rfl h.1
    | cons d m => exact startsNumber_of_isDigit (h.2 d (by simp)) _
  | @point as bs hne ha hb =>
    cases as with
    | cons d as => exact startsNumber_of_isDigit (ha d (by simp)) _
    | nil =>
      cases bs with
      | nil => simp at hne
      | cons d bs => exact hb d (by simp)

theorem Constant.WellFormed.startsNumber {k : Constant} (h : k.WellFormed) (rest : List Char) :
    startsNumber (k.text ++ rest) = true := by
  cases h with
  | integer hbody hs =>
    cases hbody with
    | decimal hd => simpa using (Mantissa.whole hd).startsNumber (_ ++ rest)
    | hex => rfl
  | float hbody hs =>
    cases hbody with
    | fixed hm => simpa using hm.startsNumber (_ ++ rest)
    | decimal hm he => simpa using hm.startsNumber (_ ++ (_ ++ rest))
    | hex => rfl

theorem Constant.WellFormed.ne_nil {k : Constant} (h : k.WellFormed) : k.text ≠ [] := by
  intro hnil
  have hstart := h.startsNumber []
  rw [hnil] at hstart
  cases hstart

/-! ## No constant is longer -/

theorem IsRun.append {digit : Char → Bool} {ds run : List Char} (h : IsRun digit ds)
    (hrun : ∀ d ∈ run, digit d) : IsRun digit (ds ++ run) :=
  ⟨by simp [h.1], fun d hd => (List.mem_append.mp hd).elim (h.2 d) (hrun d)⟩

theorem Exponent.append {marks e run : List Char} (he : Exponent marks e)
    (hrun : ∀ d ∈ run, d.isDigit) : Exponent marks (e ++ run) := by
  obtain ⟨hm, hs, hd⟩ := he
  rw [List.cons_append, List.append_assoc]
  exact .mk hm hs (hd.append hrun)

theorem Mantissa.append_point {digit : Char → Bool} {m run : List Char}
    (hm : Mantissa digit m true) (hrun : ∀ d ∈ run, digit d) : Mantissa digit (m ++ run) true := by
  obtain _ | ⟨hne, ha, hb⟩ := hm
  rw [List.append_assoc, List.cons_append]
  exact .point (hne.imp id fun h => by simp [h]) ha
    fun d hd => (List.mem_append.mp hd).elim (hb d) (hrun d)

theorem decimalOf_isPrefix (whole fraction rest : List Char) :
    whole ++ fraction <+: (decimalOf whole fraction rest).text := by
  unfold decimalOf
  simp only [List.append_assoc]
  split <;> simp

theorem hexOf_isPrefix {whole : List Char} (hne : whole ≠ []) (mark rest : List Char) :
    mark ++ whole <+: (hexOf mark whole rest).text := by
  unfold hexOf
  dsimp only
  split
  · simp
  · simp

/-- The digits of an integer are taken, be it as a part of something longer. -/
theorem IntBody.isPrefix_leadingConstant {body : List Char} (h : IntBody body) (rest : List Char) :
    body <+: (leadingConstant (body ++ rest)).text := by
  cases h with
  | decimal hd =>
    by_cases hlen : body.length < 2
    · -- A single digit may be the zero of a hexadecimal mark, but something is always taken.
      obtain ⟨d, rfl⟩ : ∃ d, body = [d] := by
        have hpos := List.length_pos_iff.mpr hd.1
        exact List.length_eq_one_iff.mp (by omega)
      have hscan := scanned_leadingConstant (startsNumber_of_isDigit (hd.2 d (by simp)) rest)
      have hpos := List.length_pos_iff.mpr hscan.wellFormed.ne_nil
      exact List.prefix_of_prefix_length_le (List.prefix_append [d] rest) hscan.isPrefix hpos
    · obtain ⟨run, tail, rfl, hrun, htail⟩ := exists_run Char.isDigit rest
      have hmark : ∀ c ∈ body, isHexMark c = false := fun c hc => isHexMark_of_isDigit (hd.2 c hc)
      rw [leadingConstant_decimal hd.1 hmark fun hlt => absurd hlt hlen, ← List.append_assoc,
        decimalConstant_eq (hd.append hrun).2 htail]
      have hpre := decimalOf_isPrefix (body ++ run) (decimalFraction (body ++ run) tail)
        (tail.drop (decimalFraction (body ++ run) tail).length)
      exact ((List.prefix_append body run).trans (List.prefix_append _ _)).trans hpre
  | @hex x ds hx hd =>
    rw [isHexDigit_eq] at hd
    obtain ⟨run, tail, rfl, hrun, htail⟩ := exists_run isHexDigit rest
    have hrun := hd.append hrun
    rw [List.cons_append, List.cons_append, leadingConstant_hex hx ((Mantissa.whole hd).head _),
      ← List.append_assoc, hexConstant_eq _ hrun.2 htail]
    have hpre := hexOf_isPrefix hrun.1 ['0', x] tail
    rw [← List.append_assoc] at hpre
    exact (List.prefix_append _ run).trans hpre

/-- The body of a floating constant is taken, be it as a part of something longer: with the digits
that follow it, it is a body that nothing can take digits from. -/
theorem FloatBody.isPrefix_leadingConstant {body : List Char} (h : FloatBody body)
    (rest : List Char) : body <+: (leadingConstant (body ++ rest)).text := by
  have hlen := h.two_le_length
  obtain ⟨run, tail, rfl, hrun, htail⟩ := exists_run Char.isDigit rest
  cases h with
  | fixed hm =>
    rw [leadingConstant_decimal hm.ne_nil hm.not_hexMark (by omega), ← List.append_assoc]
    obtain ⟨whole, fraction, hsplit, -, heq⟩ :=
      decimalConstant_mantissa (hm.append_point hrun) htail (by simp)
    rw [heq]
    have hpre := decimalOf_isPrefix whole fraction tail
    rw [← hsplit] at hpre
    exact (List.prefix_append _ run).trans hpre
  | @decimal m e point hm he =>
    have hmark : ∀ c ∈ m ++ e, isHexMark c = false := fun c hc =>
      (List.mem_append.mp hc).elim (hm.not_hexMark c) (he.not_hexMark c)
    rw [leadingConstant_decimal (by simp [hm.ne_nil]) hmark (by omega), List.append_assoc,
      ← List.append_assoc e, decimalConstant_exponent hm (he.append hrun) htail]
    simp [List.append_assoc]
  | @hex x m e point hx hm he =>
    rw [isHexDigit_eq] at hm
    rw [List.cons_append, List.cons_append, List.append_assoc, leadingConstant_hex hx (hm.head _),
      ← List.append_assoc e, hexConstant_exponent hm (he.append hrun) htail]
    simp [List.append_assoc]

/-- **The scanner takes at least every constant** that stands at the start of the text. -/
theorem Constant.WellFormed.isPrefix_leadingConstant {k : Constant} (h : k.WellFormed)
    (rest : List Char) : k.text <+: (leadingConstant (k.text ++ rest)).text := by
  cases h with
  | @integer body s hbody hs =>
    cases s with
    | nil => simpa using hbody.isPrefix_leadingConstant rest
    | cons c s =>
      have hmem : c :: s ∈ intSuffixes := by simpa using hs
      have hpre : c :: s <+: c :: s ++ rest := List.prefix_append _ _
      rw [List.append_assoc, leadingConstant_integer hbody hs (by simp)]
      exact (List.prefix_append_right_inj body).mpr (List.prefix_of_prefix_length_le hpre
        (leadingIntSuffix_isPrefix _) (length_le_leadingIntSuffix hmem hpre))
  | @float body s hbody hs =>
    cases s with
    | nil => simpa using hbody.isPrefix_leadingConstant rest
    | cons c s =>
      have hsuffix : leadingFloatSuffix (c :: s ++ rest) = c :: s := by
        simp only [List.mem_cons, List.not_mem_nil, or_false, List.cons.injEq] at hs
        rcases hs with hs | ⟨rfl, rfl⟩ | ⟨rfl, rfl⟩ | ⟨rfl, rfl⟩ | ⟨rfl, rfl⟩
        · cases hs
        all_goals rfl
      rw [List.append_assoc, leadingConstant_float hbody hs (by simp)]
      exact (List.prefix_append_right_inj body).mpr (hsuffix.symm ▸ List.prefix_rfl)

/-! ## The longest constant -/

/-- The constant is the longest one at the start of the text. -/
structure Constant.Longest (k : Constant) (cs : List Char) : Prop where
  wellFormed : k.WellFormed
  isPrefix : k.text <+: cs
  longest : ∀ k' : Constant, k'.WellFormed → k'.text <+: cs → k'.text.length ≤ k.text.length

theorem longest_leadingConstant {cs : List Char} (h : startsNumber cs = true) :
    (leadingConstant cs).Longest cs := by
  have hscan := scanned_leadingConstant h
  refine ⟨hscan.wellFormed, hscan.isPrefix, fun k hk hpre => ?_⟩
  obtain ⟨rest, rfl⟩ := hpre
  exact (hk.isPrefix_leadingConstant rest).length_le

/-- No text is a constant of both kinds. -/
theorem Constant.WellFormed.eq_of_text {k k' : Constant} (h : k.WellFormed) (h' : k'.WellFormed)
    (htext : k.text = k'.text) : k = k' := by
  have hsep : Separated [] := by simp [Separated]
  rw [← leadingConstant_append h hsep, htext, leadingConstant_append h' hsep]

theorem Constant.Longest.unique {k k' : Constant} {cs : List Char} (h : k.Longest cs)
    (h' : k'.Longest cs) : k = k' := by
  refine h.wellFormed.eq_of_text h'.wellFormed ?_
  have hle := h'.longest k h.wellFormed h.isPrefix
  have hge := h.longest k' h'.wellFormed h'.isPrefix
  exact (List.prefix_of_prefix_length_le h.isPrefix h'.isPrefix hle).eq_of_length_le hge

/-- The scanner finds the longest constant, and nothing else. -/
theorem leadingConstant_eq_iff {cs : List Char} (h : startsNumber cs = true) {k : Constant} :
    leadingConstant cs = k ↔ k.Longest cs := by
  constructor
  · rintro rfl
    exact longest_leadingConstant h
  · exact (longest_leadingConstant h).unique

/-! ## Blanks behind a constant -/

theorem isSpace_eq_false {p : Char → Bool} {c : Char} (h : p c)
    (hp : p ' ' = false ∧ p '\t' = false ∧ p '\r' = false ∧ p '\n' = false) :
    isSpace c = false := by
  rw [Bool.eq_false_iff]
  intro hs
  have hstops : Stops p [c] := Separated.stops (by simpa [Separated] using hs) hp
  have hnot := hstops c rfl
  rw [h] at hnot
  cases hnot

theorem Constant.WellFormed.not_isSpace {k : Constant} (h : k.WellFormed) :
    ∀ c ∈ k.text, isSpace c = false := by
  have hdigit : ∀ c : Char, c.isDigit → isSpace c = false :=
    fun c hc => isSpace_eq_false hc (by decide)
  have hhex : ∀ c, decide (c ∈ hexDigits) → isSpace c = false :=
    fun c hc => isSpace_eq_false (p := (· ∈ hexDigits)) hc (by decide)
  have hmark : ∀ x, x = 'x' ∨ x = 'X' → isSpace x = false := by
    rintro x (rfl | rfl) <;> decide
  have hbody : ∀ {body suffix : List Char}, (∀ c ∈ body, isSpace c = false) →
      (∀ c ∈ suffix, isSpace c = false) → ∀ c ∈ body ++ suffix, isSpace c = false :=
    fun hb hs c hc => (List.mem_append.mp hc).elim (hb c) (hs c)
  cases h with
  | integer h hs =>
    have hsuffix : ∀ s ∈ [] :: intSuffixes, ∀ c ∈ s, isSpace c = false := by
      simp [intSuffixes, isSpace]
    refine hbody ?_ (hsuffix _ hs)
    cases h with
    | decimal hd => exact fun c hc => hdigit c (hd.2 c hc)
    | @hex x ds hx hd =>
      simpa [hmark x hx] using ⟨by decide, fun c hc => hhex c (hd.2 c hc)⟩
  | float h hs =>
    have hsuffix : ∀ s ∈ [[], ['f'], ['F'], ['l'], ['L']], ∀ c ∈ s, isSpace c = false := by
      simp [isSpace]
    refine hbody ?_ (hsuffix _ hs)
    cases h with
    | fixed hm => exact hm.forall_mem hdigit (by decide)
    | decimal hm he =>
      exact hbody (hm.forall_mem hdigit (by decide))
        (he.forall_mem (by simp [isSpace]) (by decide) hdigit)
    | @hex x m e point hx hm he =>
      have hme := hbody (hm.forall_mem hhex (by decide))
        (he.forall_mem (by simp [isSpace]) (by decide) hdigit)
      simpa [hmark x hx] using ⟨by decide, by simpa using hme⟩

/-- A text without blanks that stands in front of a blank ends before it. -/
theorem isPrefix_of_separated {t u v : List Char} (ht : ∀ c ∈ t, isSpace c = false)
    (hv : Separated v) (h : t <+: u ++ v) : t <+: u := by
  by_cases hlen : t.length ≤ u.length
  · exact List.prefix_of_prefix_length_le h (List.prefix_append u v) hlen
  · obtain ⟨more, rfl⟩ :=
      List.prefix_of_prefix_length_le (List.prefix_append u v) h (by omega)
    cases more with
    | nil => exact absurd (by simp) hlen
    | cons c more =>
      obtain ⟨rest, hrest⟩ := (List.prefix_append_right_inj u).mp h
      have hc : isSpace c = true := hv c (by rw [← hrest]; rfl)
      rw [ht c (by simp)] at hc
      cases hc

/-- **A blank behind a constant** does not change it, however much of what stood there is kept in
between. -/
theorem leadingConstant_cut {k : Constant} {u x v : List Char}
    (h : k.Longest (k.text ++ (u ++ x))) (hv : Separated v) :
    leadingConstant (k.text ++ (u ++ v)) = k := by
  refine (leadingConstant_eq_iff (h.wellFormed.startsNumber _)).mpr
    ⟨h.wellFormed, List.prefix_append _ _, fun k' hk' hpre => ?_⟩
  rw [← List.append_assoc] at hpre
  have hcut := isPrefix_of_separated hk'.not_isSpace hv hpre
  refine h.longest k' hk' ?_
  rw [← List.append_assoc]
  exact hcut.trans (List.prefix_append _ x)

/-- **Maximal munch.** At a digit, or at a point and a digit, the scanner takes the longest text that
is an integer constant or a floating constant, and it finds a floating constant exactly if the text
is one. -/
theorem leadingConstant_maximal (cs : List Char) (h : startsNumber cs = true) :
    (leadingConstant cs).text <+: cs ∧
      ((⟨(leadingConstant cs).text, false⟩ : Constant).WellFormed ∨
        (⟨(leadingConstant cs).text, true⟩ : Constant).WellFormed) ∧
      (∀ t isFloat, (⟨t, isFloat⟩ : Constant).WellFormed → t <+: cs →
        t.length ≤ (leadingConstant cs).text.length) ∧
      ((leadingConstant cs).isFloat = true ↔
        (⟨(leadingConstant cs).text, true⟩ : Constant).WellFormed) := by
  obtain ⟨hwf, hpre, hlongest⟩ := longest_leadingConstant h
  generalize leadingConstant cs = k at *
  obtain ⟨text, isFloat⟩ := k
  refine ⟨hpre, ?_, fun t isFloat hk ht => hlongest ⟨t, isFloat⟩ hk ht, ?_⟩
  · cases isFloat with
    | false => exact .inl hwf
    | true => exact .inr hwf
  · constructor
    · rintro rfl
      exact hwf
    · intro hfloat
      exact congrArg Constant.isFloat (hwf.eq_of_text hfloat rfl)

/-- A hexadecimal number with a point needs an exponent, and else only its digits are a constant. The
suffix behind them is as long as possible. -/
theorem leadingConstant_maximal_hex :
    (startsNumber "0x1.8e+2ul".toList = true ∧
      leadingConstant "0x1.8e+2ul".toList = ⟨"0x1".toList, false⟩ ∧
      ¬ (⟨"0x1".toList, true⟩ : Constant).WellFormed ∧
      ∀ t isFloat, (⟨t, isFloat⟩ : Constant).WellFormed → t <+: "0x1.8e+2ul".toList →
        t.length ≤ 3) ∧
    startsNumber "0x1fLLul".toList = true ∧
      leadingConstant "0x1fLLul".toList = ⟨"0x1fLLu".toList, false⟩ ∧
      (⟨"0x1fLLu".toList, false⟩ : Constant).WellFormed ∧
      ∀ t isFloat, (⟨t, isFloat⟩ : Constant).WellFormed → t <+: "0x1fLLul".toList →
        t.length ≤ 7 := by
  have hstart : startsNumber "0x1.8e+2ul".toList = true := by decide
  have heq : leadingConstant "0x1.8e+2ul".toList = ⟨"0x1".toList, false⟩ := by decide
  have hstart' : startsNumber "0x1fLLul".toList = true := by decide
  have heq' : leadingConstant "0x1fLLul".toList = ⟨"0x1fLLu".toList, false⟩ := by decide
  obtain ⟨-, -, hlongest, hkind⟩ := leadingConstant_maximal _ hstart
  obtain ⟨-, hwf, hlongest', hkind'⟩ := leadingConstant_maximal _ hstart'
  rw [heq] at hlongest hkind
  rw [heq'] at hwf hlongest' hkind'
  have hinteger := hwf.resolve_right fun hfloat => absurd (hkind'.mpr hfloat) (by decide)
  exact ⟨⟨hstart, heq, fun hfloat => absurd (hkind.mpr hfloat) (by decide), hlongest⟩, hstart', heq',
    hinteger, hlongest'⟩

end IntervalSuite.Itl
