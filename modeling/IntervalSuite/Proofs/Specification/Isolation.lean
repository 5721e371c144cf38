import IntervalSuite.Generation.Test
import IntervalSuite.Proofs.Plugin.Spelling
import IntervalSuite.Proofs.Specification.Matching
import IntervalSuite.Proofs.Specification.Preference
import IntervalSuite.Proofs.Text.Run

/-!
# Operations do not share keys

The keys of an operation are looked for among all keys that start with its stem, so that those of an
operation with a longer name are candidates too; and a key matches a signature from its start only.
Still the operation can be read off a key: it is what stands in front of the first `<` or `*`.

* `matchesChars_front`: what a key has in front of its first wildcard starts the signature.
* `keyStem_resolve`: the key that a signature resolves to has the stem of that signature.
* `resolve_isolated`: two operations never resolve to the same key.
-/

namespace IntervalSuite.Wildcard

/-- The first part of a text that is split is what stands in front of the first separator. -/
theorem head?_splitOn (a : Char) (cs : List Char) :
    (cs.splitOn a).head? = some (cs.takeWhile (· ≠ a)) := by
  induction cs with
  | nil => rfl
  | cons c cs ih =>
    rw [List.splitOn_cons_eq_if_modifyHead]
    by_cases hc : c = a
    · simp [hc]
    · rw [if_neg (by simpa using hc), List.head?_modifyHead, ih, List.takeWhile_cons,
        if_pos (by simpa using hc)]
      rfl

/-- What a matching pattern has in front of its first wildcard starts the text. -/
theorem matchesChars_front {pattern text : List Char} (h : matchesChars pattern text) :
    pattern.takeWhile (· ≠ '*') <+: text := by
  obtain ⟨first, segments, hsplit⟩ :=
    List.exists_cons_of_ne_nil (List.splitOn_ne_nil '*' pattern)
  obtain ⟨texts, rest, -, rfl⟩ := (matchesChars_iff hsplit).mp h
  have hhead := head?_splitOn '*' pattern
  rw [hsplit] at hhead
  obtain rfl : first = pattern.takeWhile (· ≠ '*') := Option.some.inj hhead
  exact ⟨gapped texts segments ++ rest, by rw [List.append_assoc]⟩

end IntervalSuite.Wildcard

namespace IntervalSuite.Specification

open Text

/-- A key that is found is the signature itself, or starts with the stem and matches. -/
theorem resolve_cases {spec : Specification} {stem signature : String} {r : Resolution}
    (h : spec.resolve stem signature = some r) :
    r.key = signature ∨ stem.toList <+: r.key.toList ∧ Wildcard.wildcardMatches r.key signature := by
  cases r with
  | exact key => exact .inl (resolve_eq_exact_iff.mp h).1
  | wildcard key =>
    obtain ⟨-, ⟨-, hstem, hmatch⟩, -⟩ := resolve_eq_wildcard_iff.mp h
    exact .inr ⟨hstem, hmatch⟩

/-! ## The stem of a key -/

/-- `c` may stand in the stem of a key: it neither opens the types of a signature nor is a
wildcard. -/
def isStemPart (c : Char) : Bool := c ≠ '<' && c ≠ '*'

/-- What a key starts with, up to its types and wildcards. -/
def keyStem (key : String) : List Char := key.toList.takeWhile isStemPart

/-- A key that starts with a stem and matches a signature of that stem has this very stem. -/
theorem keyStem_of_matches {key : String} {stem rest : List Char} (hstem : ∀ c ∈ stem, isStemPart c)
    (hrest : Stops isStemPart rest) (hkey : stem <+: key.toList)
    (hmatch : Wildcard.matchesChars key.toList (stem ++ rest)) : keyStem key = stem := by
  obtain ⟨more, hmore⟩ := hkey
  have hfront := Wildcard.matchesChars_front hmatch
  rw [keyStem, ← hmore]
  refine takeWhile_run hstem fun c hc => ?_
  obtain ⟨more, rfl⟩ := List.head?_eq_some_iff.mp hc
  by_cases hstar : c = '*'
  · subst hstar
    rfl
  -- The character behind the stem is no wildcard, so that the signature has it there too.
  have hliteral : ∀ d ∈ stem, decide (d ≠ '*') := by
    intro d hd
    have := hstem d hd
    simp only [isStemPart, Bool.and_eq_true] at this
    exact this.2
  rw [← hmore, List.takeWhile_append_of_pos hliteral, List.takeWhile_cons,
    if_pos (by simpa using hstar), List.prefix_append_right_inj] at hfront
  obtain ⟨_, rfl⟩ := hfront
  exact hrest c rfl

/-- **The operation can be read off the key.** What a signature resolves to has its stem. -/
theorem keyStem_resolve {spec : Specification} {stem signature : String} {rest : List Char}
    {r : Resolution} (hstem : ∀ c ∈ stem.toList, isStemPart c) (hrest : Stops isStemPart rest)
    (hsignature : signature.toList = stem.toList ++ rest)
    (h : spec.resolve stem signature = some r) : keyStem r.key = stem.toList := by
  rcases resolve_cases h with hexact | ⟨hkey, hmatch⟩
  · rw [keyStem, hexact, hsignature]
    exact takeWhile_run hstem hrest
  · refine keyStem_of_matches hstem hrest hkey ?_
    rw [← hsignature]
    exact hmatch

end IntervalSuite.Specification

namespace IntervalSuite.Generation

open Specification Text

theorem isStemPart_of_isIdentifier {name : String} (h : Plugin.isIdentifier name.toList) :
    ∀ c ∈ (operationStem name).toList, isStemPart c := by
  intro c hc
  rw [operationStem, String.toList_append, List.mem_append] at hc
  rcases hc with hc | hc
  · have hmark : "arith_op_".toList.all isStemPart := by decide
    exact List.all_eq_true.mp hmark c hc
  · have := Plugin.word_of_isIdentifier h c hc
    simp only [isStemPart, Bool.and_eq_true, decide_eq_true_eq]
    constructor
    all_goals
      rintro rfl
      revert this
      decide

/-- The key of an operation has the stem of the operation. -/
theorem keyStem_operation {spec : Specification} {name outputs inputs : String} {r : Resolution}
    (hname : Plugin.isIdentifier name.toList)
    (h : spec.resolve (operationStem name) (operationSignature name outputs inputs) = some r) :
    keyStem r.key = (operationStem name).toList := by
  have hsignature : (operationSignature name outputs inputs).toList =
      (operationStem name).toList ++ '<' :: ('<' :: outputs.toList ++ ">><".toList ++
        inputs.toList ++ ['>']) := by
    simp [operationSignature, String.toList_append]
  exact keyStem_resolve (isStemPart_of_isIdentifier hname) (.cons (by decide) _) hsignature h

/-- The key of the subset operation in assertions has the stem of that operation. -/
theorem keyStem_subsetOperation {spec : Specification} {r : Resolution}
    (h : spec.resolve subsetOperation subsetOperation = some r) :
    keyStem r.key = (operationStem "subset").toList := by
  have hsubset : subsetOperation = operationStem "subset" := by decide
  rw [hsubset] at h
  exact keyStem_resolve (isStemPart_of_isIdentifier (by decide)) (by decide : Stops isStemPart [])
    (List.append_nil _).symm h

theorem operationStem_inj {a b : String}
    (h : (operationStem a).toList = (operationStem b).toList) : a = b := by
  simp only [operationStem, String.toList_append, List.append_cancel_left_eq] at h
  exact String.toList_inj.mp h

/-- **Operations do not share keys.** The keys of two operations with different names are different,
whatever stands for the types of their outputs and inputs; and the key of the subset operation in
assertions is not the key of an operation with another name. -/
theorem resolve_isolated (spec : Specification) (a b : String) (outputs inputs : String)
    (outputs' inputs' : String) (r s : Resolution) (ha : Plugin.isIdentifier a.toList)
    (hr : spec.resolve (operationStem a) (operationSignature a outputs inputs) = some r) :
    (Plugin.isIdentifier b.toList → a ≠ b →
      spec.resolve (operationStem b) (operationSignature b outputs' inputs') = some s →
      r.key ≠ s.key) ∧
    (a ≠ "subset" → spec.resolve subsetOperation subsetOperation = some s → r.key ≠ s.key) := by
  have hkey := keyStem_operation ha hr
  constructor
  · intro hb hab hs heq
    rw [heq, keyStem_operation hb hs] at hkey
    exact hab (operationStem_inj hkey).symm
  · intro hab hs heq
    rw [heq, keyStem_subsetOperation hs] at hkey
    exact hab (operationStem_inj hkey).symm

/-- Keys of operations whose names start with each other, with and without wildcards. -/
def nestedKeys : Specification :=
  .ofSheets [] [] [("op_sub", .text "-"), ("op_sub*>*<*", .text "-"), ("op_subset*", .text "in"),
    ("op_subsets<<*", .text "all"), ("op_subs", .text "s")]

theorem resolve_nestedKeys :
    nestedKeys.resolve (operationStem "sub") (operationSignature "sub" "int" "int,int") =
        some (.wildcard "arith_op_sub*>*<*") ∧
      nestedKeys.resolve (operationStem "subset") (operationSignature "subset" "int" "int") =
        some (.wildcard "arith_op_subset*") ∧
      nestedKeys.resolve subsetOperation subsetOperation = some (.wildcard "arith_op_subset*") ∧
      "arith_op_sub*>*<*" ≠ "arith_op_subset*" := by
  have hsub : nestedKeys.resolve (operationStem "sub") (operationSignature "sub" "int" "int,int") =
      some (.wildcard "arith_op_sub*>*<*") := by decide +kernel
  have hsubset : nestedKeys.resolve (operationStem "subset")
      (operationSignature "subset" "int" "int") = some (.wildcard "arith_op_subset*") := by
    decide +kernel
  have hassertion : nestedKeys.resolve subsetOperation subsetOperation =
      some (.wildcard "arith_op_subset*") := by decide +kernel
  refine ⟨hsub, hsubset, hassertion, ?_⟩
  exact (resolve_isolated _ _ _ _ _ _ _ _ _ (by decide) hsub).1 (by decide) (by decide) hsubset

end IntervalSuite.Generation
