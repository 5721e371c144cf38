import IntervalSuite.Proofs.Distinct
import IntervalSuite.Proofs.Generation.Refinement

/-!
# Dropped tests

A test is dropped if the target has no template for its operation, or none for the subset operation
that its accurate outputs need. A dropped test leaves a warning and nothing else: without it the
generated file is the same. The two reasons are found at different depths, the second one only when
the inputs of the test have been rendered.

* `renderTest_dropped`: a test is dropped exactly for one of these reasons, with that warning.
* `renderTestcase_kept`, `renderDocument_kept`: the text is that of the tests that are kept.
* `generate_kept`: the warnings and the content of a generated file.
-/

namespace IntervalSuite.Generation

/-! ## What is dropped -/

/-- The outputs of a test whose types are part of its signature. -/
def typedOutputs : Itl.Outputs → List Itl.Literal
  | .tightest tightest => tightest
  | .accurate accurate => accurate
  | .both _ accurate => accurate

/-- The signature under which the operation of a test is looked up. -/
def testSignature (test : Itl.Test) : String :=
  operationSignature test.operation (Itl.typeSignature (typedOutputs test.outputs))
    (Itl.typeSignature test.inputs)

section

variable (target : Target)

/-- The target has no template for the operation of the test. -/
def LacksOperation (test : Itl.Test) : Prop :=
  target.spec.resolve (operationStem test.operation) (testSignature test) = none

instance : DecidablePred (LacksOperation target) := fun _ => inferInstanceAs (Decidable (_ = _))

/-- The test needs the subset operation, and the target has no template for it. -/
def LacksSubset (outputs : Itl.Outputs) : Prop :=
  outputs.accurate?.isSome ∧ target.spec.resolve subsetOperation subsetOperation = none

instance : DecidablePred (LacksSubset target) := fun _ => inferInstanceAs (Decidable (_ ∧ _))

/-- The test can not be rendered for want of a template. -/
def Dropped (test : Itl.Test) : Prop := LacksOperation target test ∨ LacksSubset target test.outputs

instance : DecidablePred (Dropped target) := fun _ => inferInstanceAs (Decidable (_ ∨ _))

/-- The warning about a dropped test: it names the operation of the test if that is what is
missing, and the subset operation otherwise. -/
def dropWarning (test : Itl.Test) : String :=
  Target.unknownOperation
    (if LacksOperation target test then testSignature test else subsetOperation)
    (target.textD "lang_name")

/-- The warnings about the dropped tests of a list. -/
def dropWarnings (tests : List Itl.Test) : List String :=
  (tests.filter (Dropped target ·)).map (dropWarning target)

/-- The testcase without its dropped tests. -/
def keptTests (testcase : Itl.Testcase) : Itl.Testcase :=
  { testcase with tests := testcase.tests.filter (¬ Dropped target ·) }

/-- The document without its dropped tests. -/
def keptDocument (document : Itl.Document) : Itl.Document :=
  { document with testcases := document.testcases.map (keptTests target) }

end

section

variable {target : Target}

/-! ## Tests -/

theorem lookup_eq_ok {stem signature : String} {found : Target.Lookup}
    (h : target.lookup stem signature = .ok found) :
    (∃ key, target.spec.resolve stem signature ≠ none ∧ found = .known key) ∨
    (target.spec.resolve stem signature = none ∧
      found = .unknown (Target.unknownOperation signature (target.textD "lang_name"))) := by
  unfold Target.lookup at h
  split at h
  · rename_i resolution hresolve
    exact .inl ⟨resolution.key, by simp [hresolve], (Except.ok.inj h).symm⟩
  · rename_i hresolve
    simp only [bind_eq_ok_iff, pure_eq_ok_iff] at h
    obtain ⟨language, hlanguage, rfl⟩ := h
    rw [Target.text_eq_ok hlanguage]
    exact .inr ⟨hresolve, rfl⟩

theorem outputTypes_eq_ok {test : Itl.Test} {types : String} (h : outputTypes test = .ok types) :
    types = Itl.typeSignature (typedOutputs test.outputs) := by
  unfold outputTypes at h
  cases houtputs : test.outputs with
  | tightest | accurate =>
    rw [houtputs] at h
    exact (Except.ok.inj h).symm
  | both tightest accurate =>
    simp only [houtputs] at h
    split at h
    · exact (Except.ok.inj h).symm
    · cases h

/-- A test has no assertions exactly if it needs a subset operation that is not there. -/
theorem assertions_dropped {outputs : Itl.Outputs} {results : List (List String)} {a : Assertions}
    (h : assertions target outputs results = .ok a) :
    (LacksSubset target outputs ∧
      a = .unknown (Target.unknownOperation subsetOperation (target.textD "lang_name"))) ∨
    (¬ LacksSubset target outputs ∧ ∃ texts, a = .all texts) := by
  cases outputs with
  | tightest tightest =>
    simp only [assertions, bind_eq_ok_iff, pure_eq_ok_iff] at h
    obtain ⟨_, _, _, _, _, _, rfl⟩ := h
    exact .inr ⟨fun hlacks => Bool.noConfusion hlacks.1, _, rfl⟩
  | accurate accurate | both tightest accurate =>
    simp only [assertions, bind_eq_ok_iff] at h
    obtain ⟨_, _, found, hfound, h⟩ := h
    obtain ⟨key, hresolve, rfl⟩ | ⟨hresolve, rfl⟩ := lookup_eq_ok hfound
    · simp only [bind_eq_ok_iff, pure_eq_ok_iff] at h
      refine .inr ⟨fun hlacks => hresolve hlacks.2, ?_⟩
      grind
    · exact .inl ⟨⟨rfl, hresolve⟩, (pure_eq_ok_iff.mp h).symm⟩

/-- **A test is dropped exactly for want of a template**, and the warning says which. -/
theorem renderTest_dropped {test : Itl.Test} {outcome : Outcome}
    (h : renderTest target test = .ok outcome) :
    (Dropped target test ∧ outcome = .dropped (dropWarning target test)) ∨
    (¬ Dropped target test ∧ ∃ text, outcome = .rendered text) := by
  simp only [renderTest, bind_eq_ok_iff] at h
  obtain ⟨comments, -, types, htypes, found, hfound, h⟩ := h
  obtain rfl := outputTypes_eq_ok htypes
  obtain ⟨key, hresolve, rfl⟩ | ⟨hresolve, rfl⟩ := lookup_eq_ok hfound
  · have hown : ¬ LacksOperation target test := hresolve
    simp only [bind_eq_ok_iff] at h
    obtain ⟨template, -, inputs, -, h⟩ := h
    split at h
    · obtain ⟨_, hthrow, -⟩ := bind_eq_ok_iff.mp h
      cases hthrow
    · obtain ⟨asserts, hasserts, h⟩ := bind_eq_ok_iff.mp h
      obtain ⟨hsubset, rfl⟩ | ⟨hsubset, texts, rfl⟩ := assertions_dropped hasserts
      · obtain rfl := pure_eq_ok_iff.mp h
        exact .inl ⟨.inr hsubset, by rw [dropWarning, if_neg hown]⟩
      · simp only [bind_eq_ok_iff, pure_eq_ok_iff] at h
        obtain ⟨frame, -, rfl⟩ := h
        exact .inr ⟨not_or.mpr ⟨hown, hsubset⟩, _, rfl⟩
  · have hown : LacksOperation target test := hresolve
    obtain rfl := pure_eq_ok_iff.mp h
    exact .inl ⟨.inl hown, by rw [dropWarning, if_pos hown]; rfl⟩

@[simp] theorem Outcome.warning?_rendered (text : String) : (rendered text).warning? = none := by
  rw [warning?]

@[simp] theorem Outcome.warning?_dropped (warning : String) :
    (dropped warning).warning? = some warning := by
  rw [warning?]

/-- The tests that are kept are rendered as before, and the others have left their warnings. -/
theorem renderTests_kept {tests : List Itl.Test} {outcomes : List Outcome}
    (h : tests.mapM (renderTest target) = .ok outcomes) :
    (tests.filter (¬ Dropped target ·)).mapM (renderTest target) =
        .ok (outcomes.filter (·.warning?.isNone)) ∧
      outcomes.filterMap Outcome.warning? = dropWarnings target tests := by
  rw [mapM_eq_ok_iff] at h ⊢
  unfold dropWarnings
  induction h with
  | nil => exact ⟨.nil, rfl⟩
  | cons hhead _ ih =>
    obtain ⟨hdropped, rfl⟩ | ⟨hkept, text, rfl⟩ := renderTest_dropped hhead
    · simpa [hdropped] using ih
    · simpa [hkept, hhead] using ih

/-! ## Testcases and documents -/

/-- A dropped test is laid out as a blank text. -/
theorem allBlank_layOut (width : Option Nat) : Text.allBlank (layOut width (Text.trim "")) := by
  cases width with
  | none => decide
  | some width =>
    have htrim : Text.trim "" = "" := by decide
    have hblank : Text.isBlank ' ' := by decide
    simp [layOut, htrim, Text.indent, Text.lines, Text.unlines, Text.allBlank, hblank]

/-- Dropped tests do not show in the list of tests that are not blank. -/
theorem dropBlank_kept (outcomes : List Outcome) (width : Option Nat) :
    dropBlank ((outcomes.filter (·.warning?.isNone)).map fun outcome =>
        layOut width (Text.trim outcome.text)) =
      dropBlank (outcomes.map fun outcome => layOut width (Text.trim outcome.text)) := by
  unfold dropBlank
  rw [List.filter_map, List.filter_map, List.filter_filter]
  congr 1
  refine List.filter_congr fun outcome _ => ?_
  cases outcome with
  | rendered text => simp
  | dropped warning => simp [Outcome.text, allBlank_layOut]

theorem renderTestcase_kept {testcase : Itl.Testcase} {rendered : Rendered}
    (h : renderTestcase target testcase = .ok rendered) :
    renderTestcase target (keptTests target testcase) = .ok ⟨rendered.text, []⟩ ∧
      rendered.warnings = dropWarnings target testcase.tests := by
  simp only [renderTestcase, bind_eq_ok_iff, pure_eq_ok_iff] at h
  obtain ⟨frame, hframe, comments, hcomments, width, hwidth, outcomes, houtcomes, rfl⟩ := h
  obtain ⟨hkept, hwarnings⟩ := renderTests_kept houtcomes
  refine ⟨?_, hwarnings⟩
  simp only [renderTestcase, bind_eq_ok_iff, pure_eq_ok_iff]
  refine ⟨frame, hframe, comments, hcomments, width, hwidth, _, hkept, ?_⟩
  rw [dropBlank_kept]
  have hnone : (outcomes.filter (·.warning?.isNone)).filterMap Outcome.warning? = [] := by
    simp
  rw [hnone]
  rfl

theorem renderTestcases_kept {testcases : List Itl.Testcase} {rendered : List Rendered}
    (h : testcases.mapM (renderTestcase target) = .ok rendered) :
    (testcases.map (keptTests target)).mapM (renderTestcase target) =
        .ok (rendered.map fun r => ⟨r.text, []⟩) ∧
      rendered.flatMap (·.warnings) = dropWarnings target (testcases.flatMap (·.tests)) := by
  rw [mapM_eq_ok_iff] at h ⊢
  induction h with
  | nil => exact ⟨.nil, rfl⟩
  | cons hhead _ ih =>
    obtain ⟨hkept, hwarnings⟩ := renderTestcase_kept hhead
    refine ⟨.cons hkept ih.1, ?_⟩
    rw [List.flatMap_cons, hwarnings, ih.2]
    simp [dropWarnings]

theorem renderDocument_kept {document : Itl.Document} {rendered : Rendered}
    (h : renderDocument target document = .ok rendered) :
    renderDocument target (keptDocument target document) = .ok ⟨rendered.text, []⟩ ∧
      rendered.warnings = dropWarnings target (document.testcases.flatMap (·.tests)) := by
  -- The rest of the rendering is the same with and without a comment.
  cases hcomment : document.comment
  all_goals
    simp only [renderDocument, hcomment, bind_eq_ok_iff, pure_eq_ok_iff] at h
    obtain ⟨token, htoken, frame, hframe, text, htext, comment, hc, width, hwidth, testcases,
      htestcases, rfl⟩ := h
    obtain ⟨hkept, hwarnings⟩ := renderTestcases_kept htestcases
    refine ⟨?_, hwarnings⟩
    simp only [renderDocument, keptDocument, hcomment, bind_eq_ok_iff, pure_eq_ok_iff]
    refine ⟨token, htoken, frame, hframe, text, htext, comment, hc, width, hwidth, _, hkept, ?_⟩
    simp [Function.comp_def, documentName]

end

/-- **Dropped tests leave a warning and nothing else.** The warnings of a generated file are those of
the dropped tests, each of them once and in the order of their first occurrences; and without the
dropped tests the document gives the same content and no warnings. -/
theorem generate_kept (target : Target) (document : Itl.Document) {generated : Generated}
    (h : generate target document = .ok generated) :
    FirstOccurrences (dropWarnings target (document.testcases.flatMap (·.tests)))
        generated.warnings ∧
      generate target (keptDocument target document) = .ok ⟨generated.content, []⟩ := by
  simp only [generate, bind_eq_ok_iff, pure_eq_ok_iff] at h
  obtain ⟨rendered, hrendered, rfl⟩ := h
  obtain ⟨hkept, hwarnings⟩ := renderDocument_kept hrendered
  refine ⟨hwarnings ▸ firstOccurrences_eraseDups rendered.warnings, ?_⟩
  simp only [generate, bind_eq_ok_iff, pure_eq_ok_iff]
  exact ⟨_, hkept, rfl⟩

/-- A target that knows one operation, and not the subset operation. -/
def sparseTarget : Target where
  spec.entries := [
    ("lang_name", .text "c"), ("lang_line_comment_token", .text "//"),
    ("lang_line_end_token", .text ";"), ("lang_indent_tests", .flag true),
    ("lang_indent_testcases", .flag true), ("lang_spaces_indent", .number 2),
    ("test_testfile_seq", .text "$TESTCASES"), ("test_testcase_seq", .text "$TC_NAME\n$TESTS"),
    ("test_test_seq", .text "$ASSERTS"), ("test_assert_equals", .text "$ARG1 == $ARG2"),
    ("arith_op_neg*", .text "-$ARG1")]
  spec.nodup := by decide +kernel
  respelling := Respelling.none.apply

/-- A document with tests that are dropped for both reasons, among them all tests of one testcase. -/
def sparseDocument : Itl.Document :=
  let one : Itl.Literal := .integer "1" .int false
  let test (operation : String) (outputs : Itl.Outputs) : Itl.Test :=
    ⟨operation, [one], outputs, [], ⟨1, 1⟩⟩
  { fileName := "sparse.itl", comment := none,
    testcases := [
      ⟨["a"], [test "abs" (.tightest [one]), test "neg" (.accurate [one])], [], ⟨1, 1⟩⟩,
      ⟨["b"], [test "neg" (.tightest [one]), test "neg" (.both [one] [one]),
        test "abs" (.tightest [one])], [], ⟨1, 1⟩⟩] }

theorem generate_sparseDocument :
    ∃ generated, generate sparseTarget sparseDocument = .ok generated ∧
      generated.warnings.length = 2 ∧
      FirstOccurrences (dropWarnings sparseTarget (sparseDocument.testcases.flatMap (·.tests)))
        generated.warnings ∧
      generate sparseTarget (keptDocument sparseTarget sparseDocument) =
        .ok ⟨generated.content, []⟩ := by
  have hlength : (generate sparseTarget sparseDocument).map (·.warnings.length) = .ok 2 := by
    decide +kernel
  cases h : generate sparseTarget sparseDocument with
  | error e =>
    rw [h] at hlength
    cases hlength
  | ok generated =>
    rw [h] at hlength
    exact ⟨generated, rfl, Except.ok.inj hlength, generate_kept _ _ h⟩

end IntervalSuite.Generation
