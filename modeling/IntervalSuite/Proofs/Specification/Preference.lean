import IntervalSuite.Specification.Resolution
import IntervalSuite.Proofs.Text.Bytes

/-!
# The preferred key

Of the keys that match a signature, the one with the most bytes is taken, and of several such keys
the one whose bytes come first. This is a strict total order on keys, so that there is one best key,
and the order in which the keys are stored does not matter.

* `favourite?_eq_some_iff`: the favourite is the key that is preferred to all others.
* `resolve_best`: what a signature resolves to, and that it depends on the set of keys alone.
-/

namespace IntervalSuite.Specification

open Text

/-! ## Preference is a strict total order -/

theorem preferred_iff {a b : String} :
    preferred a b ↔
      b.utf8ByteSize < a.utf8ByteSize ∨ a.utf8ByteSize = b.utf8ByteSize ∧ a < b := by
  simp [preferred]

/-- Preference, said of the bytes of the two keys. -/
theorem preferred_iff_utf8 {a b : String} :
    preferred a b ↔
      (utf8 b).length < (utf8 a).length ∨
        (utf8 b).length = (utf8 a).length ∧ utf8 a < utf8 b := by
  rw [preferred_iff, length_utf8, length_utf8, utf8_lt_iff, eq_comm]

theorem preferred_asymm {a b : String} (h : preferred a b) : ¬ preferred b a := by
  rw [preferred_iff] at h ⊢
  rintro (hba | ⟨hsize, hba⟩)
  · omega
  · rcases h with hab | ⟨-, hab⟩
    · omega
    · exact String.lt_asymm hab hba

theorem preferred_trans {a b c : String} (hab : preferred a b) (hbc : preferred b c) :
    preferred a c := by
  rw [preferred_iff] at hab hbc ⊢
  rcases hab with hab | ⟨hsize, hab⟩
  · left
    omega
  · rcases hbc with hbc | ⟨hsize', hbc⟩
    · left
      omega
    · exact .inr ⟨hsize.trans hsize', String.lt_trans hab hbc⟩

theorem preferred_of_ne {a b : String} (hne : a ≠ b) (h : ¬ preferred a b) : preferred b a := by
  rw [preferred_iff, not_or, not_and] at h
  rw [preferred_iff]
  by_cases hsize : a.utf8ByteSize = b.utf8ByteSize
  · refine .inr ⟨hsize.symm, ?_⟩
    rcases lt_trichotomy a b with hlt | heq | hgt
    · exact absurd hlt (h.2 hsize)
    · exact absurd heq hne
    · exact hgt
  · left
    omega

/-! ## The favourite of a list -/

/-- The key is in the list and preferred to all others of the list. -/
def IsBest (keys : List String) (key : String) : Prop :=
  key ∈ keys ∧ ∀ other ∈ keys, other ≠ key → preferred key other

theorem IsBest.unique {keys : List String} {a b : String} (ha : IsBest keys a)
    (hb : IsBest keys b) : a = b := by
  by_contra hne
  exact preferred_asymm (ha.2 b hb.1 (Ne.symm hne)) (hb.2 a ha.1 hne)

theorem favourite?_eq_none_iff {keys : List String} : favourite? keys = none ↔ keys = [] := by
  cases keys with
  | nil => simp [favourite?]
  | cons key keys =>
    rw [favourite?]
    split <;> simp

theorem isBest_favourite? {keys : List String} {key : String} (h : favourite? keys = some key) :
    IsBest keys key := by
  induction keys generalizing key with
  | nil => cases h
  | cons first keys ih =>
    rw [favourite?] at h
    split at h
    · rename_i hnone
      obtain rfl := favourite?_eq_none_iff.mp hnone
      obtain rfl := Option.some.inj h
      refine ⟨List.mem_cons_self, fun other hother hne => absurd ?_ hne⟩
      exact List.mem_singleton.mp hother
    · rename_i best hbest
      obtain ⟨hmem, hpreferred⟩ := ih hbest
      obtain rfl := Option.some.inj h
      split
      · rename_i hwins
        refine ⟨List.mem_cons_of_mem _ hmem, fun other hother hne => ?_⟩
        rcases List.mem_cons.mp hother with rfl | hother
        · exact hwins
        · exact hpreferred other hother hne
      · rename_i hloses
        refine ⟨List.mem_cons_self, fun other hother hne => ?_⟩
        have hother : other ∈ keys := (List.mem_cons.mp hother).resolve_left hne
        -- The first key wins against the best of the others, and so against all of them.
        by_cases hbest : best = first
        · exact hbest ▸ hpreferred other hother (hbest ▸ hne)
        · have hfirst : preferred first best := preferred_of_ne hbest hloses
          by_cases hsame : other = best
          · exact hsame ▸ hfirst
          · exact preferred_trans hfirst (hpreferred other hother hsame)

/-- **The favourite is the best key**, of which there is only one. -/
theorem favourite?_eq_some_iff {keys : List String} {key : String} :
    favourite? keys = some key ↔ IsBest keys key := by
  refine ⟨isBest_favourite?, fun hbest => ?_⟩
  cases hfavourite : favourite? keys with
  | none =>
    rw [favourite?_eq_none_iff.mp hfavourite] at hbest
    exact absurd hbest.1 List.not_mem_nil
  | some other => rw [(isBest_favourite? hfavourite).unique hbest]

/-! ## Resolution -/

/-- The key is stored, starts with the stem and matches the signature. -/
def Candidate (spec : Specification) (stem signature key : String) : Prop :=
  key ∈ spec.keys ∧ stem.toList <+: key.toList ∧ Wildcard.wildcardMatches key signature

section

variable {spec : Specification} {stem signature : String}

theorem contains_iff {key : String} : spec.contains key ↔ key ∈ spec.keys := List.contains_iff_mem

theorem resolve_of_mem (h : signature ∈ spec.keys) :
    spec.resolve stem signature = some (.exact signature) := by
  rw [resolve, if_pos (contains_iff.mpr h)]

theorem resolve_of_not_mem (h : signature ∉ spec.keys) :
    spec.resolve stem signature =
      (favourite? ((spec.keysFrom stem).filter (Wildcard.wildcardMatches · signature))).map
        .wildcard := by
  rw [resolve, if_neg fun hc => h (contains_iff.mp hc)]

/-- The keys among which the favourite is chosen. -/
theorem mem_candidates {key : String} :
    key ∈ (spec.keysFrom stem).filter (Wildcard.wildcardMatches · signature) ↔
      Candidate spec stem signature key := by
  rw [List.mem_filter, keysFrom, List.mem_filter, List.isPrefixOf_iff_prefix, and_assoc]
  rfl

theorem resolve_eq_exact_iff {key : String} :
    spec.resolve stem signature = some (.exact key) ↔ key = signature ∧ signature ∈ spec.keys := by
  by_cases hmem : signature ∈ spec.keys
  · rw [resolve_of_mem hmem]
    simp [hmem, eq_comm]
  · rw [resolve_of_not_mem hmem]
    simp [hmem]

theorem resolve_eq_wildcard_iff {key : String} :
    spec.resolve stem signature = some (.wildcard key) ↔
      signature ∉ spec.keys ∧ Candidate spec stem signature key ∧
        ∀ other, Candidate spec stem signature other → other ≠ key → preferred key other := by
  by_cases hmem : signature ∈ spec.keys
  · rw [resolve_of_mem hmem]
    simp [hmem]
  · rw [resolve_of_not_mem hmem]
    simp only [Option.map_eq_some_iff, favourite?_eq_some_iff, IsBest, mem_candidates,
      Resolution.wildcard.injEq, exists_eq_right, hmem, not_false_eq_true, true_and]

theorem resolve_eq_none_iff :
    spec.resolve stem signature = none ↔
      signature ∉ spec.keys ∧ ∀ key, ¬ Candidate spec stem signature key := by
  by_cases hmem : signature ∈ spec.keys
  · rw [resolve_of_mem hmem]
    simp [hmem]
  · rw [resolve_of_not_mem hmem]
    simp only [Option.map_eq_none_iff, favourite?_eq_none_iff, List.eq_nil_iff_forall_not_mem,
      mem_candidates, hmem, not_false_eq_true, true_and]

/-- Only the set of keys matters. -/
theorem resolve_congr {spec' : Specification} (h : ∀ key, key ∈ spec'.keys ↔ key ∈ spec.keys) :
    spec'.resolve stem signature = spec.resolve stem signature := by
  have hcandidate : ∀ key, Candidate spec' stem signature key ↔ Candidate spec stem signature key :=
    fun key => and_congr_left fun _ => h key
  cases hresolve : spec.resolve stem signature with
  | none =>
    obtain ⟨hmem, hnone⟩ := resolve_eq_none_iff.mp hresolve
    exact resolve_eq_none_iff.mpr ⟨fun hm => hmem ((h _).mp hm), fun key hkey =>
      hnone key ((hcandidate key).mp hkey)⟩
  | some r =>
    cases r with
    | exact key =>
      obtain ⟨hkey, hmem⟩ := resolve_eq_exact_iff.mp hresolve
      exact resolve_eq_exact_iff.mpr ⟨hkey, (h _).mpr hmem⟩
    | wildcard key =>
      obtain ⟨hmem, hkey, hbest⟩ := resolve_eq_wildcard_iff.mp hresolve
      refine resolve_eq_wildcard_iff.mpr ⟨fun hm => hmem ((h _).mp hm), (hcandidate key).mpr hkey, ?_⟩
      intro other hother
      exact hbest other ((hcandidate other).mp hother)

end

/-- **A signature resolves to the best key.** It resolves to itself exactly if it is a key. Otherwise
it resolves to the candidate that has more bytes than any other one, or as many and comes first in
the order of the bytes; and to nothing exactly if there is no candidate. The order in which the keys
are stored does not matter. -/
theorem resolve_best (spec : Specification) (stem signature : String) :
    (∀ key, spec.resolve stem signature = some (.exact key) ↔
      key = signature ∧ signature ∈ spec.keys) ∧
    (∀ key, spec.resolve stem signature = some (.wildcard key) ↔
      signature ∉ spec.keys ∧ Candidate spec stem signature key ∧
        ∀ other, Candidate spec stem signature other → other ≠ key →
          (utf8 other).length < (utf8 key).length ∨
            (utf8 other).length = (utf8 key).length ∧ utf8 key < utf8 other) ∧
    (spec.resolve stem signature = none ↔
      signature ∉ spec.keys ∧ ∀ key, ¬ Candidate spec stem signature key) ∧
    ∀ spec' : Specification, (∀ key, key ∈ spec'.keys ↔ key ∈ spec.keys) →
      spec'.resolve stem signature = spec.resolve stem signature := by
  refine ⟨fun key => resolve_eq_exact_iff, fun key => ?_, resolve_eq_none_iff, fun spec' h =>
    resolve_congr h⟩
  rw [resolve_eq_wildcard_iff]
  simp only [preferred_iff_utf8]

/-- Keys of one operation, of which three have the same number of bytes. -/
def tiedKeys : Specification :=
  .ofSheets [] [] [("op_f*é", .text "1"), ("op_f*a*", .text "2"), ("op_f*b*", .text "3"),
    ("op_f*", .text "4")]

/-- The same keys in another order. -/
def tiedKeysReversed : Specification :=
  .ofSheets [] [] [("op_f*", .text "4"), ("op_f*b*", .text "3"), ("op_f*a*", .text "2"),
    ("op_f*é", .text "1")]

theorem resolve_tiedKeys :
    tiedKeys.resolve "arith_op_f" "arith_op_f<abé>" = some (.wildcard "arith_op_f*a*") ∧
      tiedKeysReversed.resolve "arith_op_f" "arith_op_f<abé>" =
        some (.wildcard "arith_op_f*a*") := by
  have hreverse : tiedKeysReversed.keys = tiedKeys.keys.reverse := by decide +kernel
  have hkeys : ∀ key, key ∈ tiedKeysReversed.keys ↔ key ∈ tiedKeys.keys := by
    intro key
    rw [hreverse, List.mem_reverse]
  have hresolve : tiedKeys.resolve "arith_op_f" "arith_op_f<abé>" =
      some (.wildcard "arith_op_f*a*") := by decide +kernel
  refine ⟨hresolve, ?_⟩
  rw [(resolve_best tiedKeys _ _).2.2.2 tiedKeysReversed hkeys, hresolve]

end IntervalSuite.Specification
