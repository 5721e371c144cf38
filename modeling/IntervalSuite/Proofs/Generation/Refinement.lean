import IntervalSuite.Proofs.Fallible
import IntervalSuite.Proofs.Generation.Reference
import IntervalSuite.Proofs.Template.Trimming

/-!
# Generation refines the reference renderer

Generation fills a template by one substitution for each name. A substitution reads the text that the
ones before it have left, a list is chained through placeholders that are put back behind its items,
and a test is trimmed in between. Under the conditions of `ClosedDocument` none of this shows: what
is generated is what the reference renderer says.

Each level of a document has one lemma, which says that its text is `Faithful`: it comes out as the
reference renderer says, and it is closed, so that the level above can put it into its own template.
-/

namespace IntervalSuite.Generation

open Template

theorem Target.text_eq_ok {target : Target} {key s : String} (h : target.text key = .ok s) :
    s = target.textD key := by
  rw [textD, h]
  rfl

/-! ## Lists of texts -/

/-- The texts of a list come out as they should, and they are closed. -/
abbrev AllFaithful : List String → List String → Prop := List.Forall₂ Faithful

theorem AllFaithful.eq {xs ys : List String} (h : AllFaithful xs ys) : xs = ys := by
  induction h with
  | nil => rfl
  | cons hx _ ih => rw [hx.eq, ih]

theorem AllFaithful.closed {xs ys : List String} (h : AllFaithful xs ys) : ∀ y ∈ ys, Closed y := by
  induction h with
  | nil => simp
  | cons hx _ ih => exact List.forall_mem_cons.mpr ⟨hx.closed, ih⟩

theorem AllFaithful.closed_left {xs ys : List String} (h : AllFaithful xs ys) :
    ∀ x ∈ xs, Closed x :=
  h.eq ▸ h.closed

theorem AllFaithful.append {xs ys xs' ys' : List String} (h : AllFaithful xs ys)
    (h' : AllFaithful xs' ys') : AllFaithful (xs ++ xs') (ys ++ ys') :=
  List.rel_append h h'

theorem AllFaithful.intercalate {xs ys : List String} (h : AllFaithful xs ys) {delim : String}
    (hdelim : Closed delim) : Faithful (delim.intercalate xs) (delim.intercalate ys) :=
  ⟨by rw [h.eq], closed_intercalate hdelim h.closed⟩

theorem AllFaithful.unlines {xs ys : List String} (h : AllFaithful xs ys) :
    Faithful (Text.unlines xs) (Text.unlines ys) :=
  h.intercalate (by decide)

theorem AllFaithful.dropBlank {xs ys : List String} (h : AllFaithful xs ys) :
    AllFaithful (dropBlank xs) (dropBlank ys) := by
  obtain rfl := h.eq
  exact List.forall₂_same.mpr fun text htext => .refl (h.closed text (List.mem_of_mem_filter htext))

/-- The items of a list that are rendered one by one. -/
theorem allFaithful_of_mapM {α β : Type} {render : α → Except Error β} {text : β → String}
    {reference : α → String} {items : List α} {rendered : List β}
    (h : items.mapM render = .ok rendered)
    (hitem : ∀ item ∈ items, ∀ b, render item = .ok b → Faithful (text b) (reference item)) :
    AllFaithful (rendered.map text) (items.map reference) := by
  rw [mapM_eq_ok_iff] at h
  induction h with
  | nil => exact .nil
  | cons hhead _ ih =>
    obtain ⟨hfirst, hrest⟩ := List.forall_mem_cons.mp hitem
    exact .cons (hfirst _ hhead) (ih hrest)

/-! ## Literals -/

section

variable {target : Target}

/-- The two arguments of a template can be filled in in any order. -/
theorem ClosedByPair.faithful {t v₁ v₂ w₁ w₂ : String} {p q : Prop} {vs : List (String × String)}
    (ht : ClosedByPair t p q) (hv₁ : vs.lookup "ARG1" = some v₁) (hv₂ : vs.lookup "ARG2" = some v₂)
    (hp : p → Faithful v₁ w₁) (hq : q → Faithful v₂ w₂) :
    Faithful (substituteAll t vs) (fillAll t [("ARG1", w₁), ("ARG2", w₂)]) := by
  refine ClosedBy.faithful ht ?_
  rintro _ (⟨rfl, h⟩ | ⟨rfl, h⟩)
  · exact ⟨v₁, w₁, hv₁, by simp, hp h⟩
  · exact ⟨v₂, w₂, hv₂, by simp [List.lookup_cons], hq h⟩

theorem renderNumber_faithful {number type : String} (h : ClosedNumber target number type) :
    Faithful (renderNumber target number type) (Reference.number target number type) := by
  unfold ClosedNumber at h
  unfold renderNumber Reference.number
  cases hget : target.spec.get? ("lang_literal_" ++ type) with
  | none =>
    rw [hget] at h
    exact .refl h
  | some template =>
    rw [hget] at h
    exact h.faithful_substitute .refl

theorem renderScalar_faithful {type : Itl.FloatType} {value : Itl.Scalar} {s : String}
    (h : renderScalar target type value = .ok s) (hc : ClosedScalar target type value) :
    Faithful s (Reference.scalar target type value) := by
  cases value with
  | number text =>
    obtain rfl := Except.ok.inj h
    exact renderNumber_faithful hc
  | infinity sign =>
    cases sign with
    | plus | minus =>
      obtain rfl := Target.text_eq_ok h
      exact .refl hc

theorem renderDecoration_faithful {d : Itl.Decoration} {s : String}
    (h : renderDecoration target d = .ok s) (hc : Closed (Reference.decoration target d)) :
    Faithful s (Reference.decoration target d) := by
  obtain rfl := Target.text_eq_ok h
  exact .refl hc

theorem renderInterval_faithful {value : Itl.Interval} {s : String}
    (h : renderInterval target value = .ok s) (hc : ClosedInterval target value) :
    Faithful s (Reference.interval target value) := by
  cases value with
  | special kind type d =>
    cases d with
    | none =>
      obtain rfl := Target.text_eq_ok h
      exact .refl hc
    | some d =>
      simp only [renderInterval, bind_eq_ok_iff, pure_eq_ok_iff] at h
      obtain ⟨template, htemplate, dec, hdec, rfl⟩ := h
      obtain rfl := Target.text_eq_ok htemplate
      exact ClosedBy.faithful_substitute hc (renderDecoration_faithful hdec)
  | infSup type inf sup d =>
    cases d with
    | none =>
      simp only [renderInterval, bind_eq_ok_iff, pure_eq_ok_iff] at h
      obtain ⟨i, hi, u, hu, template, htemplate, rfl⟩ := h
      obtain rfl := Target.text_eq_ok htemplate
      change Faithful (substituteAll _ [("ARG1", i), ("ARG2", u)]) _
      exact ClosedByPair.faithful hc (by simp) (by simp [List.lookup_cons])
        (renderScalar_faithful hi) (renderScalar_faithful hu)
    | some d =>
      simp only [renderInterval, bind_eq_ok_iff, pure_eq_ok_iff] at h
      obtain ⟨i, hi, u, hu, template, htemplate, dec, hdec, rfl⟩ := h
      obtain rfl := Target.text_eq_ok htemplate
      change Faithful (substituteAll _ [("ARG1", i), ("ARG2", u), ("DEC", dec)]) _
      refine ClosedBy.faithful hc ?_
      rintro _ (⟨rfl, hinf⟩ | ⟨rfl, hsup⟩ | ⟨rfl, hclosed⟩)
      · exact ⟨i, _, by simp, by simp, renderScalar_faithful hi hinf⟩
      · exact ⟨u, _, by simp [List.lookup_cons], by simp [List.lookup_cons],
          renderScalar_faithful hu hsup⟩
      · exact ⟨dec, _, by simp [List.lookup_cons], by simp [List.lookup_cons],
          renderDecoration_faithful hdec hclosed⟩

theorem renderLiteral_faithful {l : Itl.Literal} {s : String} (h : renderLiteral target l = .ok s)
    (hc : ClosedLiteral target l) : Faithful s (Reference.literal target l) := by
  cases l with
  | integer text type unsigned =>
    obtain rfl := Except.ok.inj h
    exact renderNumber_faithful hc
  | real type value => exact renderScalar_faithful h hc
  | string text =>
    obtain rfl := Except.ok.inj h
    exact .refl hc
  | boolean value =>
    cases value with
    | true | false =>
      obtain rfl := Target.text_eq_ok h
      exact .refl hc
  | overlap state =>
    obtain rfl := Target.text_eq_ok h
    exact .refl hc
  | interval value => exact renderInterval_faithful h hc

/-! ## Comments -/

theorem closed_lineCommentBody {text : String} (h : Closed text) :
    Closed (lineCommentBody text) := by
  unfold lineCommentBody
  split
  · rename_i body hbody
    rw [List.isPrefixOf?_eq_some_iff_append_eq] at hbody
    rw [Closed, ← hbody, List.mem_append, not_or] at h
    exact closed_ofList.mpr h.2
  · exact h

theorem closed_blockCommentBody {text : String} (h : Closed text) :
    Closed (blockCommentBody text) := by
  unfold blockCommentBody
  split
  · rename_i body hbody
    rw [List.isPrefixOf?_eq_some_iff_append_eq] at hbody
    split
    · rename_i inner hinner
      rw [List.isSuffixOf?_eq_some_iff_append_eq] at hinner
      rw [Closed, ← hbody, ← hinner, List.mem_append, List.mem_append, not_or, not_or] at h
      exact closed_ofList.mpr h.2.1
    · exact h
  · exact h

theorem closed_of_mem_blockCommentLines {text l : String} (h : Closed text)
    (hl : l ∈ blockCommentLines text) : Closed l := by
  refine closed_of_mem_lines (closed_blockCommentBody h) ?_
  have hlast : ∀ ls : List String, dropBlankLast ls ⊆ ls := by
    intro ls
    unfold dropBlankLast
    split
    · exact List.dropLast_subset ls
    · exact List.Subset.refl ls
  have hfirst : ∀ ls : List String, dropBlankFirst ls ⊆ ls := by
    intro ls
    unfold dropBlankFirst
    split
    · exact List.drop_subset 1 ls
    · exact List.Subset.refl ls
  exact hlast _ (hfirst _ hl)

theorem closed_comment {c : Itl.Comment} (h : ClosedComment target c) :
    Closed (Reference.comment target c) := by
  obtain ⟨htext, htokens⟩ := h
  unfold commentTokens at htokens
  unfold Reference.comment
  cases hstyle : c.style with
  | line =>
    rw [hstyle] at htokens
    exact (htokens _ (by simp)).append (closed_lineCommentBody htext)
  | block =>
    rw [hstyle] at htokens
    have hlines : ∀ l ∈ (blockCommentLines c.text).map
        (target.textD "lang_block_comment_intermediate" ++ ·), Closed l := by
      intro l hl
      obtain ⟨line, hline, rfl⟩ := List.mem_map.mp hl
      refine Closed.append (htokens _ ?_) (closed_of_mem_blockCommentLines htext hline)
      simpa using List.ne_nil_of_mem hline
    have hnewline : Closed "\n" := by decide
    have hstart := htokens "lang_block_comment_start" (by simp)
    have hfinish := htokens "lang_block_comment_end" (by simp)
    exact (((hstart.append hnewline).append (closed_unlines hlines)).append hnewline).append hfinish

theorem renderComment_eq_ok {c : Itl.Comment} {s : String} (h : renderComment target c = .ok s) :
    s = Reference.comment target c := by
  unfold renderComment at h
  unfold Reference.comment
  cases hstyle : c.style with
  | line =>
    simp only [hstyle, bind_eq_ok_iff, pure_eq_ok_iff] at h
    obtain ⟨token, htoken, rfl⟩ := h
    obtain rfl := Target.text_eq_ok htoken
    rfl
  | block =>
    simp only [hstyle, bind_eq_ok_iff, pure_eq_ok_iff] at h
    obtain ⟨intermediate, hintermediate, start, hstart, finish, hfinish, rfl⟩ := h
    obtain rfl := Target.text_eq_ok hintermediate
    obtain rfl := Target.text_eq_ok hstart
    obtain rfl := Target.text_eq_ok hfinish
    rfl

theorem renderComment_faithful {c : Itl.Comment} {s : String} (h : renderComment target c = .ok s)
    (hc : ClosedComment target c) : Faithful s (Reference.comment target c) :=
  ⟨renderComment_eq_ok h, closed_comment hc⟩

theorem renderComments_faithful {comments : List Itl.Comment} {texts : List String}
    (h : comments.mapM (renderComment target) = .ok texts)
    (hc : ∀ c ∈ comments, ClosedComment target c) :
    AllFaithful texts (comments.map (Reference.comment target)) := by
  rw [← List.map_id texts]
  exact allFaithful_of_mapM h fun c hmem _ hok => renderComment_faithful hok (hc c hmem)

/-! ## Assertions -/

theorem comparison_faithful {template v₁ v₂ w₁ w₂ : String} {p q : Prop}
    (ht : ClosedByPair template p q) (hp : p → Faithful v₁ w₁) (hq : q → Faithful v₂ w₂) :
    Faithful (comparison template v₁ v₂) (Reference.comparison template w₁ w₂) := by
  change Faithful (substituteAll template [("ARG2", v₂), ("ARG1", v₁)]) _
  exact ht.faithful (by simp [List.lookup_cons]) (by simp) hp hq

theorem assertWithin_faithful {subset v₁ v₂ w₁ w₂ : String} {p q : Prop}
    (ht : ClosedWithin target subset p q) (hp : p → Faithful v₁ w₁) (hq : q → Faithful v₂ w₂) :
    Faithful (assertWithin subset (target.textD "test_assert_true") v₁ v₂)
      (Reference.within subset (target.textD "test_assert_true") w₁ w₂) := by
  refine ClosedBy.faithful_substitute ht fun hpair => ?_
  change Faithful (substituteAll subset [("ARG1", v₁), ("ARG2", v₂)]) _
  exact hpair.faithful (by simp) (by simp [List.lookup_cons]) hp hq

theorem assertEncloses_faithful {subset v₁ v₂ w₁ w₂ : String} {p q : Prop}
    (ht : ClosedWithin target subset p q) (hp : p → Faithful v₁ w₁) (hq : q → Faithful v₂ w₂) :
    Faithful (assertEncloses subset (target.textD "test_assert_true") v₁ v₂)
      (Reference.within subset (target.textD "test_assert_true") w₁ w₂) :=
  ClosedBy.faithful_substitute ht fun hpair => comparison_faithful hpair hp hq

/-- The comparisons of outputs with the candidates of their results. -/
theorem each_faithful (assertion reference : String → String → String)
    {outputs : List Itl.Literal} {texts : List String} {results : List (List String)}
    {closed : Itl.Literal → Prop} (h : outputs.mapM (renderLiteral target) = .ok texts)
    (hresults : ∀ candidates ∈ results, ∀ candidate ∈ candidates, Closed candidate)
    (hc : ClosedEach target results outputs closed)
    (hassertion : ∀ output text candidate, closed output →
      (True → Faithful candidate candidate) →
      (ClosedLiteral target output → Faithful text (Reference.literal target output)) →
      Faithful (assertion candidate text) (reference candidate (Reference.literal target output))) :
    AllFaithful
      ((pairings texts results).map fun (output, candidate) =>
        assertion candidate output ++ target.textD "lang_line_end_token")
      (Reference.each target results outputs reference) := by
  rw [mapM_eq_ok_iff] at h
  unfold Reference.each
  induction h generalizing results with
  | nil => exact .nil
  | @cons output text outputs texts houtput _ ih =>
    cases results with
    | nil => exact .nil
    | cons candidates results =>
      obtain ⟨hcandidates, hresults⟩ := List.forall_mem_cons.mp hresults
      obtain ⟨hhead, hc⟩ := List.forall_mem_cons.mp hc
      simp only [pairings, List.map_cons, List.zip_cons_cons, List.flatMap_cons, List.map_append,
        List.map_map]
      refine AllFaithful.append ?_ (ih hresults hc)
      refine List.forall₂_map_left_iff.mpr (List.forall₂_map_right_iff.mpr ?_)
      refine List.forall₂_same.mpr ?_
      intro candidate hmem
      obtain ⟨hclosed, hend⟩ := hhead (List.ne_nil_of_mem hmem)
      have hone := hassertion output text candidate hclosed
        (fun _ => .refl (hcandidates candidate hmem)) (renderLiteral_faithful houtput)
      exact ⟨congrArg (· ++ _) hone.eq, hone.closed.append hend⟩

theorem lookup_known {stem signature key : String}
    (h : target.lookup stem signature = .ok (.known key)) :
    (target.spec.resolve stem signature).map (·.key) = some key := by
  unfold Target.lookup at h
  split at h
  · rename_i resolution hresolve
    obtain rfl : resolution.key = key := by simpa using h
    rw [hresolve]
    rfl
  · simp only [bind_eq_ok_iff, pure_eq_ok_iff] at h
    obtain ⟨_, _, hunknown⟩ := h
    cases hunknown

theorem lookup_unknown {stem signature warning : String}
    (h : target.lookup stem signature = .ok (.unknown warning)) :
    (target.spec.resolve stem signature).map (·.key) = none := by
  unfold Target.lookup at h
  split at h
  · cases h
  · rename_i hresolve
    rw [hresolve]
    rfl

/-- What becomes of the assertions of a test. Whether there are any does not depend on the
results. -/
theorem assertions_cases {outputs : Itl.Outputs} {results : List (List String)} {a : Assertions}
    (h : assertions target outputs results = .ok a) :
    (∃ warning, a = .unknown warning ∧
      ∀ other, Reference.assertions? target other outputs = none) ∨
    ∃ texts, ∃ reference : List (List String) → List String, a = .all texts ∧
      (∀ other, Reference.assertions? target other outputs = some (reference other)) ∧
      ((∀ candidates ∈ results, ∀ candidate ∈ candidates, Closed candidate) →
        ClosedAssertions target results outputs → AllFaithful texts (reference results)) := by
  cases outputs with
  | tightest tightest =>
    simp only [assertions, bind_eq_ok_iff, pure_eq_ok_iff] at h
    obtain ⟨lineEnd, hlineEnd, equals, hequals, rendered, hrendered, rfl⟩ := h
    obtain rfl := Target.text_eq_ok hlineEnd
    obtain rfl := Target.text_eq_ok hequals
    refine .inr ⟨_, _, rfl, fun _ => rfl, fun hresults hc => ?_⟩
    exact each_faithful _ _ hrendered hresults hc fun _ _ _ => comparison_faithful
  | accurate accurate =>
    simp only [assertions, bind_eq_ok_iff] at h
    obtain ⟨lineEnd, hlineEnd, found, hfound, h⟩ := h
    obtain rfl := Target.text_eq_ok hlineEnd
    cases found with
    | unknown warning =>
      have hkey : Reference.subsetKey? target = none := lookup_unknown hfound
      refine .inl ⟨warning, (pure_eq_ok_iff.mp h).symm, fun other => ?_⟩
      rw [Reference.assertions?, hkey]
      rfl
    | known key =>
      have hkey : Reference.subsetKey? target = some key := lookup_known hfound
      simp only [bind_eq_ok_iff, pure_eq_ok_iff] at h
      obtain ⟨subset, hsubset, assertTrue, hassert, rendered, hrendered, rfl⟩ := h
      obtain rfl := Target.text_eq_ok hsubset
      obtain rfl := Target.text_eq_ok hassert
      refine .inr ⟨_, _, rfl, fun other => by rw [Reference.assertions?, hkey]; rfl, ?_⟩
      intro hresults hc
      exact each_faithful _ _ hrendered hresults (hc key hkey) fun _ _ _ => assertWithin_faithful
  | both tightest accurate =>
    simp only [assertions, bind_eq_ok_iff] at h
    obtain ⟨lineEnd, hlineEnd, found, hfound, h⟩ := h
    obtain rfl := Target.text_eq_ok hlineEnd
    cases found with
    | unknown warning =>
      have hkey : Reference.subsetKey? target = none := lookup_unknown hfound
      refine .inl ⟨warning, (pure_eq_ok_iff.mp h).symm, fun other => ?_⟩
      rw [Reference.assertions?, hkey]
      rfl
    | known key =>
      have hkey : Reference.subsetKey? target = some key := lookup_known hfound
      simp only [bind_eq_ok_iff, pure_eq_ok_iff] at h
      obtain ⟨subset, hsubset, equals, hequals, assertTrue, hassert, tight, htight, acc, hacc,
        rfl⟩ := h
      obtain rfl := Target.text_eq_ok hsubset
      obtain rfl := Target.text_eq_ok hequals
      obtain rfl := Target.text_eq_ok hassert
      refine .inr ⟨_, _, rfl, fun other => by rw [Reference.assertions?, hkey]; rfl, ?_⟩
      intro hresults hc
      obtain ⟨hequal, hencloses, hwithin⟩ := hc key hkey
      refine AllFaithful.append (AllFaithful.append ?_ ?_) ?_
      · exact each_faithful _ _ htight hresults hequal fun _ _ _ => comparison_faithful
      · exact each_faithful (fun candidate output => assertEncloses _ _ output candidate)
          (fun candidate output => Reference.within _ _ output candidate) htight hresults hencloses
          fun _ _ _ hclosed hcandidate houtput =>
            assertEncloses_faithful hclosed houtput hcandidate
      · exact each_faithful _ _ hacc hresults hwithin fun _ _ _ => assertWithin_faithful

/-! ## Tests -/

theorem closed_of_mem_results {text : String} (h : Closed text) :
    ∀ candidates ∈ results text, ∀ candidate ∈ candidates, Closed candidate := by
  intro candidates hcandidates candidate hcandidate
  obtain ⟨part, hpart, rfl⟩ := List.mem_map.mp hcandidates
  obtain ⟨line, hline, rfl⟩ := List.mem_map.mp hcandidate
  have hclosed := dollar_not_mem_splitBetween h hpart
  exact closed_ofList.mpr (dollar_not_mem_splitOn hclosed (List.mem_of_mem_filter hline))

/-- Lists of related values bind related values to the same names. -/
theorem lookup_arguments {α β : Type} {R : α → β → Prop} {xs : List α} {ys : List β}
    (h : List.Forall₂ R xs ys) {name : String} {x : α}
    (hx : (Reference.arguments xs).lookup name = some x) :
    ∃ y, (Reference.arguments ys).lookup name = some y ∧ R x y := by
  unfold Reference.arguments at hx ⊢
  generalize 0 = i at hx ⊢
  induction h generalizing i with
  | nil => cases hx
  | @cons a b xs ys hab _ ih =>
    rw [List.zipIdx_cons, List.map_cons, List.lookup_cons] at hx ⊢
    split at hx
    · obtain rfl := Option.some.inj hx
      exact ⟨b, rfl, hab⟩
    · exact ih _ hx

theorem fillArguments_faithful {template : String} {inputs : List Itl.Literal} {texts : List String}
    (h : inputs.mapM (renderLiteral target) = .ok texts)
    (hc : ClosedBy template fun name =>
      ∃ input ∈ (Reference.arguments inputs).lookup name, ClosedLiteral target input) :
    Faithful (fillArguments template texts)
      (fillAll template (Reference.arguments (inputs.map (Reference.literal target)))) := by
  have hfill : fillArguments template texts =
      substituteAll template (Reference.arguments texts) := by
    rw [fillArguments, substituteAll, Reference.arguments, List.foldl_map]
  rw [hfill]
  refine hc.faithful ?_
  rintro name ⟨input, hinput, hclosed⟩
  obtain ⟨text, htext, hok⟩ := lookup_arguments (mapM_eq_ok_iff.mp h) hinput
  have hsame : List.Forall₂ (fun a b => b = Reference.literal target a) inputs
      (inputs.map (Reference.literal target)) :=
    List.forall₂_map_right_iff.mpr (List.forall₂_same.mpr fun _ _ => rfl)
  obtain ⟨expected, hexpected, rfl⟩ := lookup_arguments hsame hinput
  exact ⟨text, _, htext, hexpected, renderLiteral_faithful hok hclosed⟩

/-- What becomes of a test: it is dropped, or its frame is filled. -/
theorem renderTest_cases {test : Itl.Test} {outcome : Outcome}
    (h : renderTest target test = .ok outcome) :
    (Reference.test? target test = none ∧ outcome.text = "") ∨
    ∃ key comments inputs asserts, Reference.operationKey? target test = some key ∧
      test.comments.mapM (renderComment target) = .ok comments ∧
      test.inputs.mapM (renderLiteral target) = .ok inputs ∧
      assertions target test.outputs (results (fillArguments (target.textD key) inputs)) =
        .ok (.all asserts) ∧
      outcome.text = substitute (Text.trim (substitute (Text.trim (target.textD "test_test_seq"))
        "COMMENTS" (Text.unlines comments))) "ASSERTS" (Text.unlines asserts) ++ "\n" := by
  simp only [renderTest, bind_eq_ok_iff] at h
  obtain ⟨comments, hcomments, types, htypes, found, hfound, h⟩ := h
  have hkey : Reference.operationKey? target test =
      (target.spec.resolve (operationStem test.operation) (operationSignature test.operation types
        (Itl.typeSignature test.inputs))).map (·.key) := by
    rw [Reference.operationKey?, htypes]
    rfl
  cases found with
  | unknown warning =>
    obtain rfl := pure_eq_ok_iff.mp h
    rw [lookup_unknown hfound] at hkey
    refine .inl ⟨?_, rfl⟩
    rw [Reference.test?, hkey]
    rfl
  | known key =>
    rw [lookup_known hfound] at hkey
    simp only [bind_eq_ok_iff] at h
    obtain ⟨template, htemplate, inputs, hinputs, h⟩ := h
    obtain rfl := Target.text_eq_ok htemplate
    split at h
    · obtain ⟨_, hthrow, _⟩ := bind_eq_ok_iff.mp h
      cases hthrow
    · obtain ⟨asserts, hasserts, h⟩ := bind_eq_ok_iff.mp h
      cases asserts with
      | unknown warning =>
        obtain rfl := pure_eq_ok_iff.mp h
        rcases assertions_cases hasserts with ⟨_, -, hnone⟩ | ⟨_, _, hall, -⟩
        · refine .inl ⟨?_, rfl⟩
          rw [Reference.test?, hkey]
          exact congrArg (Option.bind · _) (hnone _)
        · cases hall
      | all asserts =>
        simp only [bind_eq_ok_iff, pure_eq_ok_iff] at h
        obtain ⟨frame, hframe, rfl⟩ := h
        obtain rfl := Target.text_eq_ok hframe
        exact .inr ⟨key, comments, inputs, asserts, hkey, hcomments, hinputs, hasserts, rfl⟩

/-- The trims of a test and its last newline do not show in the trimmed text. -/
theorem trim_frame (frame comments asserts : String) :
    Text.trim (substitute (Text.trim (substitute (Text.trim frame) "COMMENTS" comments)) "ASSERTS"
        asserts ++ "\n") =
      Text.trim (substituteAll frame [("COMMENTS", comments), ("ASSERTS", asserts)]) := by
  have hblank : ∀ c ∈ "\n".toList, Text.isBlank c := by
    intro c hc
    obtain rfl : c = '\n' := by simpa using hc
    decide
  have hnewline : ∀ text : String, Text.trim (text ++ "\n") = Text.trim text := by
    intro text
    rw [Text.trim, String.toList_append, Text.trimChars_append_right hblank]
    rfl
  rw [hnewline, trim_substitute_trim frame, trim_substitute_trim]
  rfl

/-- The text of a test, up to the blanks around it. -/
theorem renderTest_faithful {test : Itl.Test} {outcome : Outcome}
    (h : renderTest target test = .ok outcome) (hc : ClosedTest target test) :
    Faithful (Text.trim outcome.text) ((Reference.test? target test).getD "") := by
  obtain ⟨htest, htext⟩ |
    ⟨key, comments, inputs, asserts, hkey, hcomments, hinputs, hasserts, htext⟩ :=
    renderTest_cases h
  · rw [htext, htest]
    exact ⟨by decide, by decide⟩
  obtain ⟨_, hunknown, -⟩ | ⟨_, reference, hall, hreference, hfaithful⟩ := assertions_cases hasserts
  · cases hunknown
  cases hall
  have htest : Reference.test? target test = some (Text.trim (fillAll (target.textD "test_test_seq")
      [("COMMENTS", Text.unlines (test.comments.map (Reference.comment target))),
        ("ASSERTS", Text.unlines (reference (Reference.candidates target test key)))])) := by
    rw [Reference.test?, hkey]
    exact congrArg (Option.bind · _) (hreference _)
  have hc := hc (by rw [htest]; rfl) key hkey
  rw [htest, htext, trim_frame]
  refine Faithful.trim (hc.faithful ?_)
  rintro _ (⟨rfl, hclosed⟩ | ⟨rfl, hoperation, hclosed⟩)
  · exact ⟨_, _, by simp, by simp, (renderComments_faithful hcomments hclosed).unlines⟩
  · obtain ⟨heq, hfilled⟩ := fillArguments_faithful hinputs hoperation
    rw [heq] at hfaithful
    have hasserts : AllFaithful asserts (reference (Reference.candidates target test key)) :=
      hfaithful (closed_of_mem_results hfilled) hclosed
    exact ⟨_, _, by simp [List.lookup_cons], by simp [List.lookup_cons], hasserts.unlines⟩

/-! ## Testcases -/

theorem Target.indentWidth_eq_ok {key : String} {width : Option Nat}
    (h : target.indentWidth key = .ok width) : width = target.indentWidthD key := by
  rw [indentWidthD, h]
  rfl

theorem layOut_faithful {s expected : String} (h : Faithful s expected) (width : Option Nat) :
    Faithful (layOut width s) (layOut width expected) := by
  obtain ⟨rfl, hclosed⟩ := h
  refine .refl ?_
  cases width with
  | none => exact hclosed.trim
  | some width => exact closed_indent hclosed width

theorem renderTests_faithful {testcase : Itl.Testcase} {outcomes : List Outcome}
    (h : testcase.tests.mapM (renderTest target) = .ok outcomes)
    (hc : ∀ test ∈ testcase.tests, ClosedTest target test) :
    AllFaithful (dropBlank (outcomes.map fun outcome =>
        layOut (target.indentWidthD "lang_indent_tests") (Text.trim outcome.text)))
      (Reference.tests target testcase) :=
  AllFaithful.dropBlank (allFaithful_of_mapM h fun test hmem _ hok =>
    layOut_faithful (renderTest_faithful hok (hc test hmem)) _)

/-- The values for the frame of a testcase, if those of its names that are lists are faithful. -/
theorem testcaseValues_faithful {testcase : Itl.Testcase} {comments tests : List String}
    (hc : ClosedTestcase target testcase)
    (hcomments : (∀ c ∈ testcase.comments, ClosedComment target c) →
      AllFaithful comments (testcase.comments.map (Reference.comment target)))
    (htests : (∀ test ∈ testcase.tests, ClosedTest target test) →
      AllFaithful tests (Reference.tests target testcase)) :
    FaithfulValues (target.textD "test_testcase_seq")
      ([("COMMENTS", "\n".intercalate comments),
        ("TC_NAME", target.respelling .name testcase.dottedName)] ++
        [("TESTS", "\n".intercalate tests)]) (Reference.testcaseValues target testcase) := by
  have hnewline : Closed "\n" := by decide
  intro name hname
  rcases hc.2 name hname with ⟨rfl, hclosed⟩ | ⟨rfl, hclosed⟩ | ⟨rfl, hclosed⟩
  · exact ⟨_, _, by simp, by simp [Reference.testcaseValues],
      (hcomments hclosed).intercalate hnewline⟩
  · exact ⟨_, _, by simp [List.lookup_cons], by simp [Reference.testcaseValues, List.lookup_cons],
      .refl hclosed⟩
  · exact ⟨_, _, by simp [List.lookup_cons], by simp [Reference.testcaseValues, List.lookup_cons],
      (htests hclosed).intercalate hnewline⟩

theorem renderTestcase_faithful {testcase : Itl.Testcase} {rendered : Rendered}
    (h : renderTestcase target testcase = .ok rendered) (hc : ClosedTestcase target testcase) :
    Faithful rendered.text (Reference.testcase target testcase) := by
  simp only [renderTestcase, bind_eq_ok_iff, pure_eq_ok_iff] at h
  obtain ⟨frame, hframe, comments, hcomments, width, hwidth, outcomes, houtcomes, rfl⟩ := h
  obtain rfl := Target.text_eq_ok hframe
  obtain rfl := Target.indentWidth_eq_ok hwidth
  have hcomments := renderComments_faithful hcomments
  have htests := renderTests_faithful houtcomes
  generalize dropBlank (outcomes.map _) = tests at htests ⊢
  have hnewline : Closed "\n" := by decide
  have hfirst : substituteList (substituteAll (target.textD "test_testcase_seq") []) "COMMENTS"
      comments "\n" = substituteAll _ [("COMMENTS", "\n".intercalate comments)] :=
    substituteList_substituteAll hc.1 (by simp [ClosedValues]) fun hmem =>
      ⟨(hcomments (by simpa using hc.2 _ hmem)).closed_left, hnewline⟩
  change Faithful (substituteList (substitute (substituteList (substituteAll
    (target.textD "test_testcase_seq") []) "COMMENTS" comments "\n") "TC_NAME" _) "TESTS" tests
    "\n") _
  rw [hfirst]
  exact (testcaseValues_faithful hc hcomments htests).faithful_list hc.1 fun hmem =>
    ⟨(htests (by simpa using hc.2 _ hmem)).closed_left, hnewline⟩

/-! ## Documents -/

theorem closed_sectionText {s : Section} (hs : s ∈ sections) (hc : ClosedSection target s) :
    Closed (Reference.sectionText target s) := by
  have htitle : ∀ s ∈ sections, Closed s.title := by decide
  have hnewline : Closed "\n" := by decide
  exact (((hc.1.append (htitle s hs)).append hnewline).append hc.2).trim.append hnewline

theorem renderSection_eq_ok {s : Section} {text : String}
    (h : renderSection target (target.textD "lang_line_comment_token") s = .ok text) :
    text = Reference.sectionText target s := by
  simp only [renderSection, bind_eq_ok_iff, pure_eq_ok_iff] at h
  obtain ⟨body, hbody, rfl⟩ := h
  obtain rfl := Target.text_eq_ok hbody
  rfl

/-- Sections that are looked up on demand are filled in as if all of them had been looked up. -/
theorem foldlM_substituteWith {ss : List Section} {frame text : String}
    (h : ss.foldlM (fun text s => substituteWith text s.placeholder
      (renderSection target (target.textD "lang_line_comment_token") s)) frame = .ok text) :
    text =
      substituteAll frame (ss.map fun s => (s.placeholder, Reference.sectionText target s)) := by
  induction ss generalizing frame with
  | nil => exact (pure_eq_ok_iff.mp h).symm
  | cons s ss ih =>
    rw [List.foldlM_cons, bind_eq_ok_iff] at h
    obtain ⟨next, hnext, h⟩ := h
    obtain rfl := substituteWith_eq_ok hnext fun _ => renderSection_eq_ok
    exact ih h

/-- What a document is put together from. -/
theorem renderDocument_eq_ok {document : Itl.Document} {rendered : Rendered}
    (h : renderDocument target document = .ok rendered) :
    ∃ comment testcases, document.comment.elim (.ok "") (renderComment target) = .ok comment ∧
      document.testcases.mapM (renderTestcase target) = .ok testcases ∧
      rendered.text = substituteList (substituteAll (target.textD "test_testfile_seq")
        (sections.map (fun s => (s.placeholder, Reference.sectionText target s)) ++
          [("COMMENTS", comment), ("NAME", documentName document)]))
        "TESTCASES" (dropBlank (testcases.map fun testcase =>
          layOut (target.indentWidthD "lang_indent_testcases") testcase.text)) "\n\n" := by
  -- The rest of the rendering is the same with and without a comment.
  cases hcomment : document.comment
  all_goals
    simp only [renderDocument, hcomment, bind_eq_ok_iff, pure_eq_ok_iff] at h
    obtain ⟨token, htoken, frame, hframe, text, htext, comment, hc, width, hwidth, testcases,
      htestcases, rfl⟩ := h
    obtain rfl := Target.text_eq_ok htoken
    obtain rfl := Target.text_eq_ok hframe
    obtain rfl := Target.indentWidth_eq_ok hwidth
    refine ⟨comment, testcases, by simpa using hc, htestcases, ?_⟩
    rw [substituteAll_append, ← foldlM_substituteWith htext]
    rfl

theorem renderHead_faithful {comment : Option Itl.Comment} {text : String}
    (h : comment.elim (.ok "") (renderComment target) = .ok text)
    (hc : ∀ c ∈ comment, ClosedComment target c) :
    Faithful text ((comment.map (Reference.comment target)).getD "") := by
  cases comment with
  | none =>
    obtain rfl := Except.ok.inj h
    exact .refl (by decide)
  | some c => exact renderComment_faithful h (hc c rfl)

theorem closed_documentName {document : Itl.Document} (h : Closed document.fileName) :
    Closed (documentName document) := by
  refine Closed.titleCase (closed_ofList.mpr fun hmem => h ?_)
  exact (List.takeWhile_sublist _).subset hmem

theorem renderTestcases_faithful {document : Itl.Document} {rendered : List Rendered}
    (h : document.testcases.mapM (renderTestcase target) = .ok rendered)
    (hc : ∀ t ∈ document.testcases, ClosedTestcase target t) :
    AllFaithful (dropBlank (rendered.map fun testcase =>
        layOut (target.indentWidthD "lang_indent_testcases") testcase.text))
      (Reference.testcases target document) :=
  AllFaithful.dropBlank (allFaithful_of_mapM h fun t hmem _ hok =>
    layOut_faithful (renderTestcase_faithful hok (hc t hmem)) _)

theorem lookup_sections {s : Section} (hs : s ∈ sections) (values : List (String × String)) :
    (sections.map (fun s => (s.placeholder, Reference.sectionText target s)) ++ values).lookup
      s.placeholder = some (Reference.sectionText target s) := by
  simp only [sections, List.mem_cons, List.not_mem_nil, or_false] at hs
  rcases hs with rfl | rfl | rfl | rfl <;> simp [sections, List.lookup_cons]

/-- The values for the frame of a file, if its comment and its testcases are faithful. -/
theorem documentValues_faithful {document : Itl.Document} {comment : String} {tests : List String}
    (hc : ClosedDocument target document)
    (hcomment : (∀ c ∈ document.comment, ClosedComment target c) →
      Faithful comment ((document.comment.map (Reference.comment target)).getD ""))
    (htests : (∀ t ∈ document.testcases, ClosedTestcase target t) →
      AllFaithful tests (Reference.testcases target document)) :
    FaithfulValues (target.textD "test_testfile_seq")
      ((sections.map (fun s => (s.placeholder, Reference.sectionText target s)) ++
        [("COMMENTS", comment), ("NAME", documentName document)]) ++
        [("TESTCASES", "\n\n".intercalate tests)]) (Reference.documentValues target document) := by
  have hblank : Closed "\n\n" := by decide
  intro name hmem
  rcases hc.2 name hmem with ⟨s, hs, rfl, hclosed⟩ | ⟨rfl, hclosed⟩ | ⟨rfl, hclosed⟩ |
    ⟨rfl, hclosed⟩
  · rw [List.append_assoc]
    exact ⟨_, _, lookup_sections hs _, lookup_sections hs _,
      .refl (closed_sectionText hs hclosed)⟩
  · exact ⟨_, _, by simp [sections, List.lookup_cons],
      by simp [Reference.documentValues, sections, List.lookup_cons], hcomment hclosed⟩
  · exact ⟨_, _, by simp [sections, List.lookup_cons],
      by simp [Reference.documentValues, sections, List.lookup_cons],
      .refl (closed_documentName hclosed)⟩
  · exact ⟨_, _, by simp [sections, List.lookup_cons],
      by simp [Reference.documentValues, sections, List.lookup_cons],
      (htests hclosed).intercalate hblank⟩

theorem renderDocument_faithful {document : Itl.Document} {rendered : Rendered}
    (h : renderDocument target document = .ok rendered) (hc : ClosedDocument target document) :
    Faithful rendered.text (Reference.document target document) := by
  obtain ⟨comment, testcases, hcomment, htestcases, htext⟩ := renderDocument_eq_ok h
  have hvalues := documentValues_faithful hc (renderHead_faithful hcomment)
    (renderTestcases_faithful htestcases)
  rw [htext, Reference.document]
  refine hvalues.faithful_list hc.1 fun hmem => ⟨?_, by decide⟩
  exact (renderTestcases_faithful htestcases (by simpa [sections] using hc.2 _ hmem)).closed_left

end

/-- **Generation refines the reference renderer.** If every template that a document uses is well
separated and mentions only names that have a value at the place of its use, and no other text that
is put in place holds a dollar sign, then what is generated is what the reference renderer says. -/
theorem generate_eq_reference (target : Target) (document : Itl.Document)
    (hc : ClosedDocument target document) {generated : Generated}
    (h : generate target document = .ok generated) :
    generated.content = Reference.document target document := by
  simp only [generate, bind_eq_ok_iff, pure_eq_ok_iff] at h
  obtain ⟨rendered, hrendered, rfl⟩ := h
  exact (renderDocument_faithful hrendered hc).eq

/-- A target with templates for all levels of a document. -/
def sampleTarget : Target where
  spec.entries := [
    ("lang_line_comment_token", .text "//"), ("lang_line_end_token", .text ";"),
    ("lang_indent_tests", .flag true), ("lang_indent_testcases", .flag false),
    ("lang_spaces_indent", .number 2),
    ("test_testfile_seq", .text "$PREAMBLE\nSUITE($\x7bNAME\x7d)\n$TESTCASES"),
    ("test_testcase_seq", .text "$COMMENTS\nCASE($TC_NAME)\n$TESTS"),
    ("test_test_seq", .text "\n$COMMENTS\n$ASSERTS\n"), ("test_assert_true", .text "CHECK($ARG1)"),
    ("test_assert_equals_warning", .text "WARN_EQUAL($ARG1, $ARG2)"),
    ("arith_preamble", .text "typedef interval<double> I;"), ("arith_op_neg*", .text "-$ARG1"),
    ("arith_op_subset", .text "subset($ARG1, $ARG2)"), ("arith_empty_interval_double", .text "I()"),
    ("arith_inf_sup_interval_double", .text "I($ARG1, $\x7bARG2\x7d)")]
  spec.nodup := by decide +kernel
  respelling := Respelling.none.apply

/-- A document with two comments in front of a testcase and two outputs of one test. -/
def sampleDocument : Itl.Document :=
  let interval : Itl.Literal := .interval (.infSup .double (.number "1.0") (.number "2.0") none)
  let empty : Itl.Literal := .interval (.special .empty .double none)
  { fileName := "sample.itl", comment := none,
    testcases := [⟨["a", "b"],
      [⟨"neg", [interval], .both [empty] [interval], [⟨.line, "// neg", ⟨3, 1⟩⟩], ⟨4, 1⟩⟩],
      [⟨.line, "// one", ⟨1, 1⟩⟩, ⟨.line, "// two", ⟨1, 1⟩⟩], ⟨2, 1⟩⟩] }

theorem generate_sampleDocument :
    ClosedDocument sampleTarget sampleDocument ∧
      ∃ generated, generate sampleTarget sampleDocument = .ok generated ∧
        generated.content = Reference.document sampleTarget sampleDocument := by
  have hc : ClosedDocument sampleTarget sampleDocument := by decide +kernel
  have hok : (generate sampleTarget sampleDocument).isOk := by decide +kernel
  cases h : generate sampleTarget sampleDocument with
  | error e =>
    rw [h] at hok
    cases hok
  | ok generated => exact ⟨hc, generated, rfl, generate_eq_reference _ _ hc h⟩

end IntervalSuite.Generation
