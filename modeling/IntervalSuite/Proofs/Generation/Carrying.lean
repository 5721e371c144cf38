import IntervalSuite.Proofs.Generation.Coverage
import IntervalSuite.Proofs.Generation.Refinement
import IntervalSuite.Proofs.Itl.Printing
import IntervalSuite.Proofs.Template.Rescanning

/-!
# Comments in a test

The comments of a test are put into its frame before its assertions, so the pass for the assertions
reads the comments as well: `$ASSERTS` in a comment is filled, and `$$` becomes a single dollar sign.
Any other text of a comment arrives as it is, and the assertions stand where the frame has them.

* `Rendering.CarriesComments`: the pass for the assertions leaves the comments alone.
* `renderTest_carries`: such comments and the assertions are put into the frame as if at once.
* `renderTest_rereads`: a comment that is filled with the assertions.
-/

namespace IntervalSuite.Generation

open Template

namespace Rendering

variable {target : Target} {test : Itl.Test} (r : Rendering target test)

/-- In none of their places, a dollar sign of the comments starts `$$` or a placeholder of the
assertions. -/
def CarriesComments : Prop :=
  Carries "COMMENTS".toList "ASSERTS".toList (Text.unlines r.comments).toList
    (segments r.frame.toList)

/-- The frame with comments and assertions put in at once. -/
def atOnce : String :=
  fillAll r.frame [("COMMENTS", Text.unlines r.comments), ("ASSERTS", Text.unlines r.asserts)]

/-- A test is made of one thing only. -/
instance : Subsingleton (Rendering target test) where
  allEq r s := by
    have hkey : r.key = s.key := by simpa [r.lookup_eq] using s.lookup_eq
    have htemplate : r.template = s.template := by
      simpa [hkey, s.template_eq] using r.template_eq.symm
    have hinputs : r.inputs = s.inputs := by simpa [r.inputs_eq] using s.inputs_eq
    have hasserts : r.asserts = s.asserts := by
      simpa [htemplate, hinputs, s.asserts_eq] using r.asserts_eq.symm
    have hcomments : r.comments = s.comments := by simpa [r.comments_eq] using s.comments_eq
    have hframe : r.frame = s.frame := by simpa [r.frame_eq] using s.frame_eq
    cases r
    cases s
    simp_all

theorem trim_text (hframe : WellSeparated r.frame) (hcomments : r.CarriesComments) :
    Text.trim r.text = Text.trim r.atOnce := by
  have hpasses := (substitute_substitute_iff hframe "COMMENTS" "ASSERTS"
    (Text.unlines r.comments)).mpr hcomments (Text.unlines r.asserts)
  rw [text, trim_frame, atOnce, ← hpasses]
  rfl

end Rendering

/-- **Comments are carried.** A rendered test is its frame with comments and assertions put in at
once, up to the blanks around it, if the frame is well separated and no dollar sign of the comments
starts `$$` or a placeholder of the assertions. -/
theorem renderTest_carries (target : Target) (test : Itl.Test) {text : String}
    (h : renderTest target test = .ok (.rendered text)) :
    ∃ r : Rendering target test, r.text = text ∧
      (WellSeparated r.frame → r.CarriesComments → Text.trim text = Text.trim r.atOnce) := by
  obtain ⟨r, rfl, -⟩ := exists_rendering h
  exact ⟨r, rfl, r.trim_text⟩

/-- A target with an operation `neg`, whose tests consist of comments and assertions. -/
def plainTarget : Target where
  spec.entries := [
    ("lang_line_end_token", .text ";"), ("lang_line_comment_token", .text "//"),
    ("test_test_seq", .text "$COMMENTS\n$ASSERTS"),
    ("test_assert_equals", .text "$ARG1 == $ARG2"), ("arith_op_neg*", .text "neg($ARG1)")]
  spec.nodup := by decide +kernel
  respelling := Respelling.none.apply

/-- A test of `neg` with a line comment. -/
def commentedTest (comment : String) : Itl.Test :=
  ⟨"neg", [.integer "1" .int false], .tightest [.integer "-1" .int false],
    [⟨.line, comment, ⟨1, 1⟩⟩], ⟨2, 1⟩⟩

/-- What the test with the comment is made of. -/
def plainRendering (comment : String) : Rendering plainTarget (commentedTest comment) where
  key := "arith_op_neg*"
  template := "neg($ARG1)"
  inputs := ["1"]
  asserts := ["neg(1) == -1;"]
  comments := ["//" ++ lineCommentBody comment]
  frame := "$COMMENTS\n$ASSERTS"
  types_eq := rfl
  lookup_eq := by
    change plainTarget.lookup (operationStem "neg") (testSignature (commentedTest "")) = _
    decide +kernel
  template_eq := by decide +kernel
  inputs_eq := by
    change [Itl.Literal.integer "1" .int false].mapM (renderLiteral plainTarget) = _
    decide +kernel
  asserts_eq := by
    change assertions plainTarget (.tightest [.integer "-1" .int false]) _ = _
    decide +kernel
  comments_eq := rfl
  frame_eq := by decide +kernel

/-- A comment with dollar signs in it, and with the beginning of a placeholder at its end. -/
def dollarsComment : String := "// $x: $5 or $\x7bASSERTS"

theorem renderTest_carries_dollars :
    (∀ c ∈ (commentedTest dollarsComment).comments, c.WellFormed) ∧
      WellSeparated "$COMMENTS\n$ASSERTS" ∧
      (plainRendering dollarsComment).CarriesComments ∧
      ∃ text, renderTest plainTarget (commentedTest dollarsComment) = .ok (.rendered text) ∧
        Text.trim text = dollarsComment ++ "\nneg(1) == -1;" := by
  have hframe : WellSeparated "$COMMENTS\n$ASSERTS" := by decide +kernel
  have hcarries : (plainRendering dollarsComment).CarriesComments := by
    unfold Rendering.CarriesComments
    decide +kernel
  have hok : renderTest plainTarget (commentedTest dollarsComment) =
      .ok (.rendered (plainRendering dollarsComment).text) := by
    decide +kernel
  obtain ⟨r, htext, hr⟩ := renderTest_carries _ _ hok
  obtain rfl := Subsingleton.elim r (plainRendering dollarsComment)
  refine ⟨by decide +kernel, hframe, hcarries, _, hok, ?_⟩
  rw [hr hframe hcarries]
  decide +kernel

/-- A comment that is filled with the assertions: they stand in the test once more, and the comment
does not arrive. -/
theorem renderTest_rereads :
    (∀ c ∈ (commentedTest "// $ASSERTS").comments, c.WellFormed) ∧
      (plainRendering "// $ASSERTS").frame = "$COMMENTS\n$ASSERTS" ∧
      WellSeparated "$COMMENTS\n$ASSERTS" ∧
      placeholders "$COMMENTS\n$ASSERTS" = ["COMMENTS", "ASSERTS"] ∧
      renderTest plainTarget (commentedTest "// $ASSERTS") =
        .ok (.rendered (plainRendering "// $ASSERTS").text) ∧
      Text.trim (plainRendering "// $ASSERTS").text = "// neg(1) == -1;\nneg(1) == -1;" ∧
      Text.trim (plainRendering "// $ASSERTS").atOnce = "// $ASSERTS\nneg(1) == -1;" ∧
      Text.trim (plainRendering "// $ASSERTS").text ≠
        Text.trim (plainRendering "// $ASSERTS").atOnce := by
  have htext : Text.trim (plainRendering "// $ASSERTS").text =
      "// neg(1) == -1;\nneg(1) == -1;" := by
    decide +kernel
  have honce : Text.trim (plainRendering "// $ASSERTS").atOnce =
      "// $ASSERTS\nneg(1) == -1;" := by
    decide +kernel
  refine ⟨by decide +kernel, rfl, by decide +kernel, by decide +kernel, by decide +kernel, htext,
    honce, ?_⟩
  rw [htext, honce]
  decide

end IntervalSuite.Generation
