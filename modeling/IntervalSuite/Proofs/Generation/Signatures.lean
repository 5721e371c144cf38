import IntervalSuite.Proofs.Generation.Dropping
import IntervalSuite.Proofs.Itl.Signature
import IntervalSuite.Proofs.Specification.Isolation

/-!
# Signatures tell operations apart

The signature of an operation is written as `name<<outputs>><inputs>`. The types in it are separated by
commas and have angle brackets of their own, as `interval<double>` has, so that up to three `>` stand
in a row behind the outputs. Still a signature can be read in one way only: the name ends at the first
`<`, and the outputs and the inputs end where a `>` closes none of their own brackets.

* `operationSignature_cancel`: a signature ends where it ends, whatever follows.
* `testSignature_eq_iff`: tests with one signature have one operation and the same types.
* `typedOperation_of_exact`: a key that is the signature of an operation serves no other one.
* `dropWarning_eq_iff`: tests share a warning if they lack the same operation.
-/

namespace IntervalSuite.Generation

open Itl Specification Text

/-! ## Reading a signature -/

theorem toList_operationSignature (name outputs inputs : String) :
    (operationSignature name outputs inputs).toList =
      (operationStem name).toList ++ '<' :: '<' ::
        (outputs.toList ++ '>' :: '>' :: '<' :: (inputs.toList ++ ['>'])) := by
  simp [operationSignature, String.toList_append]

/-- **A signature is read in one way only**, also in front of another text. -/
theorem operationSignature_cancel {a b : String} {outputs inputs outputs' inputs' : List Literal}
    {rest rest' : List Char} (ha : Plugin.isIdentifier a.toList) (hb : Plugin.isIdentifier b.toList)
    (h : (operationSignature a (typeSignature outputs) (typeSignature inputs)).toList ++ rest =
      (operationSignature b (typeSignature outputs') (typeSignature inputs')).toList ++ rest') :
    a = b ∧ outputs.map Literal.type = outputs'.map Literal.type ∧
      inputs.map Literal.type = inputs'.map Literal.type ∧ rest = rest' := by
  simp only [toList_operationSignature, List.append_assoc, List.cons_append, List.nil_append] at h
  have hstem := congrArg (List.takeWhile isStemPart) h
  rw [takeWhile_run (isStemPart_of_isIdentifier ha) (.cons (by decide) _),
    takeWhile_run (isStemPart_of_isIdentifier hb) (.cons (by decide) _)] at hstem
  rw [hstem, List.append_cancel_left_eq, List.cons.injEq, List.cons.injEq] at h
  obtain ⟨houtputs, hbehind⟩ :=
    (balanced_typeSignature outputs).closing (balanced_typeSignature outputs') h.2.2
  rw [List.cons.injEq, List.cons.injEq] at hbehind
  obtain ⟨hinputs, hrest⟩ :=
    (balanced_typeSignature inputs).closing (balanced_typeSignature inputs') hbehind.2.2
  exact ⟨operationStem_inj hstem, typeSignature_inj.mp (String.toList_inj.mp houtputs),
    typeSignature_inj.mp (String.toList_inj.mp hinputs), hrest⟩

/-! ## Operations with their types -/

/-- The name of an operation with the types of its outputs and of its inputs. -/
structure TypedOperation where
  name : String
  outputs : List LiteralType
  inputs : List LiteralType
  deriving DecidableEq, Repr

/-- The operation that a test is about. -/
def typedOperation (test : Test) : TypedOperation where
  name := test.operation
  outputs := (typedOutputs test.outputs).map Literal.type
  inputs := test.inputs.map Literal.type

section

variable {a b : Test}

/-- A signature does not start another one. -/
theorem testSignature_isPrefix (ha : Plugin.isIdentifier a.operation.toList)
    (hb : Plugin.isIdentifier b.operation.toList)
    (h : (testSignature a).toList <+: (testSignature b).toList) :
    typedOperation a = typedOperation b := by
  obtain ⟨rest, hrest⟩ := h
  rw [← List.append_nil (testSignature b).toList] at hrest
  obtain ⟨hname, houtputs, hinputs, -⟩ := operationSignature_cancel ha hb hrest
  rw [typedOperation, typedOperation, hname, houtputs, hinputs]

theorem testSignature_eq_iff (ha : Plugin.isIdentifier a.operation.toList)
    (hb : Plugin.isIdentifier b.operation.toList) :
    testSignature a = testSignature b ↔ typedOperation a = typedOperation b := by
  constructor
  · intro h
    refine testSignature_isPrefix ha hb ?_
    rw [h]
  · intro h
    obtain ⟨hname, houtputs, hinputs⟩ := TypedOperation.mk.inj h
    rw [testSignature, testSignature, hname, typeSignature_inj.mpr houtputs,
      typeSignature_inj.mpr hinputs]

theorem wildcard_not_mem_testSignature (ha : Plugin.isIdentifier a.operation.toList) :
    '*' ∉ (testSignature a).toList := by
  have hstem : '*' ∉ (operationStem a.operation).toList := fun hmem => by
    cases isStemPart_of_isIdentifier ha '*' hmem
  have htypes (literals : List Literal) : '*' ∉ (typeSignature literals).toList :=
    typeSignature_induction (P := ('*' ∉ ·)) (by simp) LiteralType.wildcard_not_mem_name
      (fun cs ds hcs hds => by simp [hcs, hds]) literals
  rw [testSignature, toList_operationSignature]
  simp [hstem, htypes]

/-- **A key that is the signature of an operation serves no other one**, be it as a wildcard. -/
theorem typedOperation_of_exact (ha : Plugin.isIdentifier a.operation.toList)
    (hb : Plugin.isIdentifier b.operation.toList) {spec : Specification} {r : Resolution}
    (hr : spec.resolve (operationStem b.operation) (testSignature b) = some r)
    (hkey : r.key = testSignature a) : typedOperation a = typedOperation b := by
  rcases resolve_cases hr with hexact | ⟨-, hmatch⟩
  · exact (testSignature_eq_iff ha hb).mp (hkey.symm.trans hexact)
  · refine testSignature_isPrefix ha hb ?_
    have hfront := Wildcard.matchesChars_front hmatch
    have hliteral : ∀ c ∈ (testSignature a).toList, decide (c ≠ '*') := fun c hc => by
      simpa using fun heq : c = '*' => wildcard_not_mem_testSignature ha (heq ▸ hc)
    rwa [hkey, List.takeWhile_eq_self_iff.mpr hliteral] at hfront

end

/-- The subset operation in assertions is looked up without types. -/
theorem testSignature_ne_subsetOperation (test : Test) : testSignature test ≠ subsetOperation := by
  intro h
  have hmem : '<' ∈ (testSignature test).toList := by
    rw [testSignature, toList_operationSignature]
    simp
  rw [h] at hmem
  revert hmem
  decide

/-! ## Warnings -/

theorem unknownOperation_inj {signature signature' language : String} :
    Target.unknownOperation signature language = Target.unknownOperation signature' language ↔
      signature = signature' := by
  unfold Target.unknownOperation
  simp only [String.append_left_inj, String.append_right_inj]
  rfl

/-- The operation that a dropped test lacks: its own one with its types, or else the subset operation,
which has none. -/
def lackedOperation (target : Target) (test : Test) : Option TypedOperation :=
  if LacksOperation target test then some (typedOperation test) else none

section

variable {target : Target} {a b : Test}

/-- **Tests share a warning if they lack the same operation.** -/
theorem dropWarning_eq_iff (ha : Plugin.isIdentifier a.operation.toList)
    (hb : Plugin.isIdentifier b.operation.toList) :
    dropWarning target a = dropWarning target b ↔
      lackedOperation target a = lackedOperation target b := by
  rw [dropWarning, dropWarning, unknownOperation_inj, lackedOperation, lackedOperation]
  by_cases hla : LacksOperation target a
  · by_cases hlb : LacksOperation target b
    · rw [if_pos hla, if_pos hlb, if_pos hla, if_pos hlb, testSignature_eq_iff ha hb,
        Option.some.injEq]
    · simp [hla, hlb, testSignature_ne_subsetOperation]
  · by_cases hlb : LacksOperation target b
    · simp [hla, hlb, (testSignature_ne_subsetOperation b).symm]
    · simp [hla, hlb]

/-- The warning about a dropped test reaches the generated file. -/
theorem dropWarning_mem_warnings {document : Document} {generated : Generated}
    (h : generate target document = .ok generated)
    (ha : a ∈ document.testcases.flatMap (·.tests)) (hdropped : Dropped target a) :
    dropWarning target a ∈ generated.warnings := by
  simp only [generate, bind_eq_ok_iff, pure_eq_ok_iff] at h
  obtain ⟨rendered, hrendered, rfl⟩ := h
  rw [List.mem_eraseDups, (renderDocument_kept hrendered).2]
  exact List.mem_map_of_mem (List.mem_filter.mpr ⟨ha, by simpa using hdropped⟩)

end

/-- **Signatures tell operations apart.** For tests whose operations have identifiers for names:

* the signatures under which their operations are looked up are equal if and only if the names of the
  operations, the types of the outputs and the types of the inputs are;
* a key that is found as the signature of the one operation serves the other one, be it as a wildcard,
  only if they are the same operation with the same types;
* where both tests are dropped, both have a warning in the generated file, and it is the same warning
  if and only if they lack the same operation. -/
theorem testSignature_unambiguous (a b : Test) (ha : Plugin.isIdentifier a.operation.toList)
    (hb : Plugin.isIdentifier b.operation.toList) :
    (∀ outputs outputs', outputTypes a = .ok outputs → outputTypes b = .ok outputs' →
      (operationSignature a.operation outputs (typeSignature a.inputs) =
          operationSignature b.operation outputs' (typeSignature b.inputs) ↔
        typedOperation a = typedOperation b)) ∧
    (∀ (spec : Specification) (key : String) (r : Resolution),
      spec.resolve (operationStem a.operation) (testSignature a) = some (.exact key) →
      spec.resolve (operationStem b.operation) (testSignature b) = some r → r.key = key →
      typedOperation a = typedOperation b) ∧
    (∀ target document generated, generate target document = .ok generated →
      a ∈ document.testcases.flatMap (·.tests) → b ∈ document.testcases.flatMap (·.tests) →
      Dropped target a → Dropped target b →
      dropWarning target a ∈ generated.warnings ∧ dropWarning target b ∈ generated.warnings ∧
        (dropWarning target a = dropWarning target b ↔
          lackedOperation target a = lackedOperation target b)) := by
  refine ⟨fun outputs outputs' houtputs houtputs' => ?_, fun spec key r hexact hr hkey => ?_,
    fun target document generated h hina hinb hda hdb => ?_⟩
  · rw [outputTypes_eq_ok houtputs, outputTypes_eq_ok houtputs']
    exact testSignature_eq_iff ha hb
  · rw [(resolve_eq_exact_iff.mp hexact).1] at hkey
    exact typedOperation_of_exact ha hb hr hkey
  · exact ⟨dropWarning_mem_warnings h hina hda, dropWarning_mem_warnings h hinb hdb,
      dropWarning_eq_iff ha hb⟩

/-- A test of an operation that takes no inputs or several. -/
def overloadedTest (inputs : List Literal) (outputs : List Literal → Outputs) : Test :=
  ⟨"f", inputs, outputs [.interval (.special .entire .double none)], [], ⟨1, 1⟩⟩

/-- Two tests without inputs, and one with an input. -/
def overloadedDocument : Document where
  fileName := "f.itl"
  comment := none
  testcases := [⟨["t"], [overloadedTest [] .tightest, overloadedTest [] .accurate,
    overloadedTest [.boolean true] .tightest], [], ⟨1, 1⟩⟩]

/-- The operation without inputs has a template. -/
def overloadedKeys : Specification := .ofSheets [] [] [("op_f<<interval<double>>><>", .text "f()")]

theorem testSignature_unambiguous_overloaded :
    Plugin.isIdentifier "f".toList ∧
      operationSignature "f" "interval<double>" "" ≠
        operationSignature "f" "interval<double>" "BooleanLiteralNode" ∧
      typedOperation (overloadedTest [] .tightest) = typedOperation (overloadedTest [] .accurate) ∧
      ∃ generated, generate sparseTarget overloadedDocument = .ok generated ∧
        dropWarning sparseTarget (overloadedTest [] .tightest) ∈ generated.warnings ∧
        dropWarning sparseTarget (overloadedTest [.boolean true] .tightest) ∈ generated.warnings ∧
        dropWarning sparseTarget (overloadedTest [] .tightest) ≠
          dropWarning sparseTarget (overloadedTest [.boolean true] .tightest) := by
  have hf : Plugin.isIdentifier "f".toList := by decide
  have hne : typedOperation (overloadedTest [] .tightest) ≠
      typedOperation (overloadedTest [.boolean true] .tightest) := by decide
  obtain ⟨hsignature, -, hwarnings⟩ := testSignature_unambiguous (overloadedTest [] .tightest)
    (overloadedTest [.boolean true] .tightest) hf hf
  obtain ⟨-, hkey, -⟩ := testSignature_unambiguous (overloadedTest [] .tightest)
    (overloadedTest [] .accurate) hf hf
  refine ⟨hf, fun heq => hne ((hsignature _ _ rfl rfl).mp heq), ?_, ?_⟩
  · have hresolve : ∀ test ∈ [overloadedTest [] .tightest, overloadedTest [] .accurate],
        overloadedKeys.resolve (operationStem test.operation) (testSignature test) =
          some (.exact "arith_op_f<<interval<double>>><>") := by
      decide +kernel
    exact hkey overloadedKeys _ _ (hresolve _ (by simp)) (hresolve _ (by simp)) rfl
  · have hlacks : ∀ test ∈ overloadedDocument.testcases.flatMap (·.tests),
        LacksOperation sparseTarget test := by
      decide +kernel
    have hok : (generate sparseTarget overloadedDocument).isOk := by decide +kernel
    cases hgenerated : generate sparseTarget overloadedDocument with
    | error e =>
      rw [hgenerated] at hok
      cases hok
    | ok generated =>
      have hfirst : overloadedTest [] .tightest ∈ overloadedDocument.testcases.flatMap (·.tests) := by
        simp [overloadedDocument]
      have hlast : overloadedTest [.boolean true] .tightest ∈
          overloadedDocument.testcases.flatMap (·.tests) := by
        simp [overloadedDocument]
      obtain ⟨hin, hin', hiff⟩ := hwarnings _ _ _ hgenerated hfirst hlast
        (.inl (hlacks _ hfirst)) (.inl (hlacks _ hlast))
      refine ⟨generated, rfl, hin, hin', fun heq => hne ?_⟩
      have hlacked := hiff.mp heq
      rwa [lackedOperation, lackedOperation, if_pos (hlacks _ hfirst), if_pos (hlacks _ hlast),
        Option.some.injEq] at hlacked

end IntervalSuite.Generation
