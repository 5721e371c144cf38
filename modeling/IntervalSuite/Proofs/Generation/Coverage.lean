import IntervalSuite.Proofs.Generation.Dropping
import IntervalSuite.Proofs.Itl.Signature
import Mathlib.Algebra.BigOperators.Intervals

/-!
# Assertions cover all outputs

A test that is rendered has an assertion for every declared output and every candidate of its result.
Outputs and results are paired in order, which leaves over what the longer of two lists has more; but
there are at least as many results as outputs, and tightest and accurate outputs are equally many, as
lists of outputs with one signature have the same types.

* `Rendering`: what a rendered test is made of.
* `Asserted`: the assertions of a test, output by output and candidate by candidate.
* `renderTest_covers`: the assertions of a rendered test, and their number.
-/

namespace IntervalSuite.Generation

open Template

/-! ## Rendered tests -/

/-- What a rendered test is made of. -/
structure Rendering (target : Target) (test : Itl.Test) where
  /-- The key of the operation's template. -/
  key : String
  template : String
  inputs : List String
  asserts : List String
  comments : List String
  /-- The template of a test. -/
  frame : String
  types_eq : outputTypes test = .ok (Itl.typeSignature (typedOutputs test.outputs))
  lookup_eq : target.lookup (operationStem test.operation) (testSignature test) = .ok (.known key)
  template_eq : target.text key = .ok template
  inputs_eq : test.inputs.mapM (renderLiteral target) = .ok inputs
  asserts_eq : assertions target test.outputs (results (fillArguments template inputs)) =
    .ok (.all asserts)
  comments_eq : test.comments.mapM (renderComment target) = .ok comments
  frame_eq : target.text "test_test_seq" = .ok frame

namespace Rendering

variable {target : Target} {test : Itl.Test} (r : Rendering target test)

/-- The template of the operation with the inputs of the test. -/
def filled : String := fillArguments r.template r.inputs

/-- The groups of the filled template, one for each result. -/
def groups : List (List Char) := Text.splitBetween resultSeparator.toList r.filled.toList

/-- The candidates of a result: the lines of its group that are not empty. -/
def candidates (i : Nat) : List String :=
  (((r.groups.getD i []).splitOn '\n').filter (· ≠ [])).map String.ofList

/-- The text of the test. -/
def text : String :=
  substitute (Text.trim (substitute (Text.trim r.frame) "COMMENTS" (Text.unlines r.comments)))
    "ASSERTS" (Text.unlines r.asserts) ++ "\n"

theorem length_results : (results r.filled).length = r.groups.length := by
  rw [results, List.length_map, groups]

theorem getD_results (i : Nat) : (results r.filled).getD i [] = r.candidates i := by
  rw [results, candidates, groups, List.getD_eq_getElem?_getD, List.getD_eq_getElem?_getD,
    List.getElem?_map]
  cases (Text.splitBetween resultSeparator.toList r.filled.toList)[i]? with
  | none => rfl
  | some group => rfl

end Rendering

section

variable {target : Target} {test : Itl.Test}

/-- A test that is rendered has a template with enough results. -/
theorem exists_rendering {text : String} (h : renderTest target test = .ok (.rendered text)) :
    ∃ r : Rendering target test, r.text = text ∧ outputCount test.outputs ≤ r.groups.length := by
  simp only [renderTest, bind_eq_ok_iff] at h
  obtain ⟨comments, hcomments, types, htypes, found, hfound, h⟩ := h
  obtain rfl := outputTypes_eq_ok htypes
  cases found with
  | unknown warning => cases h
  | known key =>
    simp only [bind_eq_ok_iff] at h
    obtain ⟨template, htemplate, inputs, hinputs, h⟩ := h
    split at h
    · obtain ⟨_, hthrow, -⟩ := bind_eq_ok_iff.mp h
      cases hthrow
    · rename_i henough
      obtain ⟨found, hasserts, h⟩ := bind_eq_ok_iff.mp h
      cases found with
      | unknown warning => cases h
      | all asserts =>
        simp only [bind_eq_ok_iff, pure_eq_ok_iff, Outcome.rendered.injEq] at h
        obtain ⟨frame, hframe, htext⟩ := h
        let r : Rendering target test :=
          ⟨key, template, inputs, asserts, comments, frame, htypes, hfound, htemplate, hinputs,
            hasserts, hcomments, hframe⟩
        refine ⟨r, htext, ?_⟩
        rw [← r.length_results]
        exact Nat.le_of_not_lt henough

/-- Tightest and accurate outputs have the same types, one by one. -/
theorem Rendering.same_types (r : Rendering target test) {tightest accurate : List Itl.Literal}
    (ht : test.outputs.tightest? = some tightest) (ha : test.outputs.accurate? = some accurate) :
    tightest.map Itl.Literal.type = accurate.map Itl.Literal.type := by
  have htypes := r.types_eq
  unfold outputTypes at htypes
  cases houtputs : test.outputs with
  | tightest | accurate => simp [houtputs, Itl.Outputs.tightest?, Itl.Outputs.accurate?] at ht ha
  | both t a =>
    obtain rfl : t = tightest := by simpa [houtputs, Itl.Outputs.tightest?] using ht
    obtain rfl : a = accurate := by simpa [houtputs, Itl.Outputs.accurate?] using ha
    simp only [houtputs] at htypes
    split at htypes
    · rename_i hsame
      exact Itl.typeSignature_inj.mp hsame
    · cases htypes

theorem length_tightest {tightest : List Itl.Literal}
    (ht : test.outputs.tightest? = some tightest) :
    tightest.length = outputCount test.outputs := by
  cases houtputs : test.outputs with
  | tightest t | both t =>
    obtain rfl : t = tightest := by simpa [houtputs, Itl.Outputs.tightest?] using ht
    rfl
  | accurate => simp [houtputs, Itl.Outputs.tightest?] at ht

/-- The number of accurate outputs is that of the tightest ones, where there are both. -/
theorem Rendering.length_accurate (r : Rendering target test) {accurate : List Itl.Literal}
    (ha : test.outputs.accurate? = some accurate) :
    accurate.length = outputCount test.outputs := by
  cases houtputs : test.outputs with
  | tightest => simp [houtputs, Itl.Outputs.accurate?] at ha
  | accurate a =>
    obtain rfl : a = accurate := by simpa [houtputs, Itl.Outputs.accurate?] using ha
    rfl
  | both t a =>
    have ht : test.outputs.tightest? = some t := by rw [houtputs]; rfl
    have hlength := congrArg List.length (r.same_types ht ha)
    rw [List.length_map, List.length_map] at hlength
    rw [← hlength]
    rfl

end

/-! ## Outputs and candidates -/

/-- One text for each of the first `n` results and each of its candidates, in order. -/
def forEach (n : Nat) (candidates : Nat → List String) (assertion : Nat → String → String) :
    List String :=
  (List.range n).flatMap fun i => (candidates i).map (assertion i)

theorem length_forEach (n : Nat) (candidates : Nat → List String)
    (assertion : Nat → String → String) :
    (forEach n candidates assertion).length = ∑ i ∈ Finset.range n, (candidates i).length := by
  induction n with
  | zero => rfl
  | succ n ih =>
    rw [Finset.sum_range_succ, ← ih]
    simp [forEach, List.range_succ]

/-- Where there are enough results, every output is paired. -/
theorem map_pairings {outputs : List String} {results : List (List String)}
    (h : outputs.length ≤ results.length) (assertion : String → String → String) :
    (pairings outputs results).map (fun (output, candidate) => assertion candidate output) =
      forEach outputs.length (results.getD · []) fun i candidate =>
        assertion candidate (outputs.getD i "") := by
  induction outputs generalizing results with
  | nil => rfl
  | cons output outputs ih =>
    obtain ⟨candidates, results, rfl⟩ :=
      List.exists_cons_of_length_pos (Nat.lt_of_lt_of_le (Nat.succ_pos _) h)
    have hrest := @ih results (by simpa using h)
    unfold pairings forEach at hrest ⊢
    rw [List.length_cons, List.range_succ_eq_map, List.flatMap_cons, List.flatMap_map,
      List.zip_cons_cons, List.flatMap_cons, List.map_append, hrest]
    simp

/-- The assertions for the first `n` outputs, where `candidates` are those of their results. Tightest
outputs are compared for equality, and accurate outputs have to enclose the candidate. With both, all
candidates are first compared softly with the tightest outputs, then have to enclose them, and at last
have to lie in the accurate outputs. -/
def Asserted (target : Target) (n : Nat) (candidates : Nat → List String) (asserts : List String) :
    Itl.Outputs → Prop
  | .tightest tightest => ∃ lineEnd equals outputs,
    target.text "lang_line_end_token" = .ok lineEnd ∧
    target.text "test_assert_equals" = .ok equals ∧
    tightest.mapM (renderLiteral target) = .ok outputs ∧
    asserts = forEach n candidates fun i candidate =>
      substitute (substitute equals "ARG2" (outputs.getD i "")) "ARG1" candidate ++ lineEnd
  | .accurate accurate => ∃ lineEnd key subset assertTrue outputs,
    target.text "lang_line_end_token" = .ok lineEnd ∧
    target.lookup subsetOperation subsetOperation = .ok (.known key) ∧
    target.text key = .ok subset ∧
    target.text "test_assert_true" = .ok assertTrue ∧
    accurate.mapM (renderLiteral target) = .ok outputs ∧
    asserts = forEach n candidates fun i candidate =>
      substitute assertTrue "ARG1" (substitute (substitute subset "ARG1" candidate) "ARG2"
        (outputs.getD i "")) ++ lineEnd
  | .both tightest accurate => ∃ lineEnd key subset equalsSoftly assertTrue lower upper,
    target.text "lang_line_end_token" = .ok lineEnd ∧
    target.lookup subsetOperation subsetOperation = .ok (.known key) ∧
    target.text key = .ok subset ∧
    target.text "test_assert_equals_warning" = .ok equalsSoftly ∧
    target.text "test_assert_true" = .ok assertTrue ∧
    tightest.mapM (renderLiteral target) = .ok lower ∧
    accurate.mapM (renderLiteral target) = .ok upper ∧
    asserts =
      (forEach n candidates fun i candidate =>
        substitute (substitute equalsSoftly "ARG2" (lower.getD i "")) "ARG1" candidate ++ lineEnd) ++
      (forEach n candidates fun i candidate =>
        substitute assertTrue "ARG1" (substitute (substitute subset "ARG2" candidate) "ARG1"
          (lower.getD i "")) ++ lineEnd) ++
      (forEach n candidates fun i candidate =>
        substitute assertTrue "ARG1" (substitute (substitute subset "ARG1" candidate) "ARG2"
          (upper.getD i "")) ++ lineEnd)

/-- The number of assertions about an output and a candidate. -/
def assertionsPerPair : Itl.Outputs → Nat
  | .both _ _ => 3
  | _ => 1

section

variable {target : Target} {n : Nat} {outputs : Itl.Outputs} {asserts : List String}

theorem Asserted.length {candidates : Nat → List String}
    (h : Asserted target n candidates asserts outputs) :
    asserts.length = assertionsPerPair outputs * ∑ i ∈ Finset.range n, (candidates i).length := by
  cases outputs with
  | tightest tightest =>
    obtain ⟨_, _, _, -, -, -, rfl⟩ := h
    rw [length_forEach]
    exact (Nat.one_mul _).symm
  | accurate accurate =>
    obtain ⟨_, _, _, _, _, -, -, -, -, -, rfl⟩ := h
    rw [length_forEach]
    exact (Nat.one_mul _).symm
  | both tightest accurate =>
    obtain ⟨_, _, _, _, _, _, _, -, -, -, -, -, -, -, rfl⟩ := h
    rw [List.length_append, List.length_append, length_forEach, length_forEach, length_forEach,
      assertionsPerPair]
    omega

/-- Outputs of the right number are all asserted. -/
theorem asserted_of_assertions {results : List (List String)}
    (h : assertions target outputs results = .ok (.all asserts)) (hn : n ≤ results.length)
    (htightest : ∀ t ∈ outputs.tightest?, t.length = n)
    (haccurate : ∀ a ∈ outputs.accurate?, a.length = n) :
    Asserted target n (results.getD · []) asserts outputs := by
  have heach : ∀ {literals : List Itl.Literal} {texts : List String} (lineEnd : String)
      (assertion : String → String → String), literals.mapM (renderLiteral target) = .ok texts →
      literals.length = n →
      (pairings texts results).map
          (fun (output, candidate) => assertion candidate output ++ lineEnd) =
        forEach n (results.getD · []) fun i candidate =>
          assertion candidate (texts.getD i "") ++ lineEnd := by
    intro literals texts lineEnd assertion hok hlength
    obtain rfl : texts.length = n := (mapM_eq_ok_iff.mp hok).length_eq.symm.trans hlength
    exact map_pairings hn fun candidate output => assertion candidate output ++ lineEnd
  cases outputs with
  | tightest tightest =>
    simp only [assertions, bind_eq_ok_iff, pure_eq_ok_iff] at h
    obtain ⟨lineEnd, hlineEnd, equals, hequals, texts, htexts, hall⟩ := h
    obtain rfl := Assertions.all.inj hall
    exact ⟨lineEnd, equals, texts, hlineEnd, hequals, htexts, heach _ _ htexts (htightest _ rfl)⟩
  | accurate accurate =>
    simp only [assertions, bind_eq_ok_iff] at h
    obtain ⟨lineEnd, hlineEnd, found, hfound, h⟩ := h
    cases found with
    | unknown warning => cases h
    | known key =>
      simp only [bind_eq_ok_iff, pure_eq_ok_iff] at h
      obtain ⟨subset, hsubset, assertTrue, hassert, texts, htexts, hall⟩ := h
      obtain rfl := Assertions.all.inj hall
      exact ⟨lineEnd, key, subset, assertTrue, texts, hlineEnd, hfound, hsubset, hassert, htexts,
        heach _ _ htexts (haccurate _ rfl)⟩
  | both tightest accurate =>
    simp only [assertions, bind_eq_ok_iff] at h
    obtain ⟨lineEnd, hlineEnd, found, hfound, h⟩ := h
    cases found with
    | unknown warning => cases h
    | known key =>
      simp only [bind_eq_ok_iff, pure_eq_ok_iff] at h
      obtain ⟨subset, hsubset, equals, hequals, assertTrue, hassert, lower, hlower, upper, hupper,
        hall⟩ := h
      obtain rfl := Assertions.all.inj hall
      refine ⟨lineEnd, key, subset, equals, assertTrue, lower, upper, hlineEnd, hfound, hsubset,
        hequals, hassert, hlower, hupper, ?_⟩
      have hequal := heach lineEnd (comparison equals) hlower (htightest _ rfl)
      have hencloses := heach lineEnd
        (fun candidate output => assertEncloses subset assertTrue output candidate) hlower
        (htightest _ rfl)
      have hwithin := heach lineEnd (assertWithin subset assertTrue) hupper (haccurate _ rfl)
      rw [hequal, hencloses, hwithin]
      rfl

end

/-! ## The assertions of a test -/

/-- **Assertions cover all outputs.** The groups of the filled template lie between its separators,
and there are at least as many as declared outputs. Where both lists of outputs are there, they have
the same types, one by one, and so the same length. The assertions are those for all outputs and all
candidates of their results, of which the test is made; so their number is one or three times that
of the candidates. -/
theorem renderTest_covers (target : Target) (test : Itl.Test) {text : String}
    (h : renderTest target test = .ok (.rendered text)) :
    ∃ r : Rendering target test, r.text = text ∧
      resultSeparator.toList.intercalate r.groups = r.filled.toList ∧
      (∀ group ∈ r.groups, ¬ resultSeparator.toList <:+: group) ∧
      outputCount test.outputs ≤ r.groups.length ∧
      (∀ t ∈ test.outputs.tightest?, t.length = outputCount test.outputs) ∧
      (∀ a ∈ test.outputs.accurate?, a.length = outputCount test.outputs) ∧
      (∀ t ∈ test.outputs.tightest?, ∀ a ∈ test.outputs.accurate?,
        t.map Itl.Literal.type = a.map Itl.Literal.type) ∧
      Asserted target (outputCount test.outputs) r.candidates r.asserts test.outputs ∧
      r.asserts.length = assertionsPerPair test.outputs *
        ∑ i ∈ Finset.range (outputCount test.outputs), (r.candidates i).length := by
  obtain ⟨r, htext, henough⟩ := exists_rendering h
  have hseparator : resultSeparator.toList ≠ [] := by decide
  have htightest : ∀ t ∈ test.outputs.tightest?, t.length = outputCount test.outputs :=
    fun t ht => length_tightest ht
  have haccurate : ∀ a ∈ test.outputs.accurate?, a.length = outputCount test.outputs :=
    fun a ha => r.length_accurate ha
  have hasserted : Asserted target (outputCount test.outputs) r.candidates r.asserts
      test.outputs := by
    have hresults := asserted_of_assertions r.asserts_eq (r.length_results ▸ henough) htightest
      haccurate
    rwa [show r.candidates = fun i => (results r.filled).getD i [] from
      funext fun i => (r.getD_results i).symm]
  exact ⟨r, htext, Text.intercalate_splitBetween hseparator _,
    fun group hgroup => Text.separator_not_infix hseparator hgroup, henough, htightest, haccurate,
    fun t ht a ha => r.same_types ht ha, hasserted, hasserted.length⟩

/-- A target whose operation `split` has two results, the first one with two candidates. -/
def splitTarget : Target where
  spec.entries := [
    ("lang_line_end_token", .text ";"), ("test_test_seq", .text "$COMMENTS\n$ASSERTS"),
    ("test_assert_equals_warning", .text "$ARG1 ~ $ARG2"), ("test_assert_true", .text "ok($ARG1)"),
    ("arith_op_subset", .text "$ARG1 <= $ARG2"),
    ("arith_op_split*", .text "lo($ARG1)\nlower($ARG1)\n*** next output\nhi($ARG1)")]
  spec.nodup := by decide +kernel
  respelling := Respelling.none.apply

/-- A test with two tightest and two accurate outputs. -/
def splitTest : Itl.Test :=
  let one : Itl.Literal := .integer "1" .int false
  let two : Itl.Literal := .integer "2" .int false
  ⟨"split", [one], .both [one, two] [two, two], [], ⟨1, 1⟩⟩

theorem renderTest_splitTest :
    ∃ text, renderTest splitTarget splitTest = .ok (.rendered text) ∧
      ∃ r : Rendering splitTarget splitTest, r.text = text ∧ 2 ≤ r.groups.length ∧
        r.asserts.length = 3 * ∑ i ∈ Finset.range 2, (r.candidates i).length := by
  have hrendered : (renderTest splitTarget splitTest).map (·.warning?) = .ok none := by
    decide +kernel
  cases h : renderTest splitTarget splitTest with
  | error e =>
    rw [h] at hrendered
    cases hrendered
  | ok outcome =>
    cases outcome with
    | dropped warning =>
      rw [h] at hrendered
      cases hrendered
    | rendered text =>
      obtain ⟨r, htext, -, -, henough, -, -, -, -, hlength⟩ := renderTest_covers _ _ h
      exact ⟨text, rfl, r, htext, henough, hlength⟩

end IntervalSuite.Generation
