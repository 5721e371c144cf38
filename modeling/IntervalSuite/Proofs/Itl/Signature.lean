import IntervalSuite.Itl.Literal
import Mathlib.Data.List.Infix

/-!
# Signatures of lists of literals

The signature of a list of literals is made of the names of their types, with commas between them.
No name is empty or holds a comma, and different types have different names, so that the types can be
read back from the signature.

* `splitOn_typeSignature`: the names of the types are read back.
* `typeSignature_inj`: lists of literals with one signature have the same types, one by one.
* `balanced_typeSignature`, `Balanced.closing`: a signature ends at the first `>` that closes none of
  its own brackets.
-/

namespace IntervalSuite.Itl

namespace LiteralType

/-- All types of literals. -/
def all : List LiteralType :=
  [.integer .int, .integer .long, .integer .longLong, .real .float, .real .double,
    .real .longDouble, .string, .boolean, .overlap, .interval .float, .interval .double,
    .interval .longDouble]

theorem mem_all (type : LiteralType) : type ∈ all := by
  cases type with
  | integer type => cases type <;> decide
  | real type => cases type <;> decide
  | interval type => cases type <;> decide
  | string | boolean | overlap => decide

instance (p : LiteralType → Prop) [DecidablePred p] : Decidable (∀ type, p type) :=
  decidable_of_iff (∀ type ∈ all, p type)
    ⟨fun h type => h type (mem_all type), fun h type _ => h type⟩

/-- Different types have different names. -/
theorem name_inj {a b : LiteralType} (h : a.name = b.name) : a = b := by
  have hinj : ∀ a b : LiteralType, a.name = b.name → a = b := by decide +kernel
  exact hinj a b h

theorem name_ne_nil : ∀ type : LiteralType, type.name.toList ≠ [] := by decide +kernel

theorem comma_not_mem_name : ∀ type : LiteralType, ',' ∉ type.name.toList := by decide +kernel

theorem wildcard_not_mem_name : ∀ type : LiteralType, '*' ∉ type.name.toList := by decide +kernel

end LiteralType

/-- The names of the types are what stands between the commas. -/
theorem splitOn_typeSignature {literals : List Literal} (h : literals ≠ []) :
    (typeSignature literals).toList.splitOn ',' = literals.map (·.type.name.toList) := by
  have hcomma : ∀ name ∈ literals.map (·.type.name.toList), ',' ∉ name := by
    intro name hname
    obtain ⟨literal, -, rfl⟩ := List.mem_map.mp hname
    exact literal.type.comma_not_mem_name
  rw [typeSignature, String.toList_intercalate, List.map_map]
  exact List.splitOn_intercalate ',' hcomma (by simpa using h)

theorem typeSignature_ne_empty {literals : List Literal} (h : literals ≠ []) :
    typeSignature literals ≠ "" := by
  intro hempty
  have hsplit := splitOn_typeSignature h
  rw [hempty] at hsplit
  -- The empty signature would have one type with an empty name.
  have hname : [] ∈ literals.map (·.type.name.toList) := by
    rw [← hsplit]
    simp
  obtain ⟨literal, -, hnil⟩ := List.mem_map.mp hname
  exact literal.type.name_ne_nil hnil

/-- **The types can be read back from a signature.** -/
theorem typeSignature_inj {xs ys : List Literal} :
    typeSignature xs = typeSignature ys ↔ xs.map Literal.type = ys.map Literal.type := by
  constructor
  · intro h
    by_cases hx : xs = []
    · by_cases hy : ys = []
      · rw [hx, hy]
      · rw [hx] at h
        exact absurd h.symm (typeSignature_ne_empty hy)
    · by_cases hy : ys = []
      · rw [hy] at h
        exact absurd h (typeSignature_ne_empty hx)
      · have hnames : xs.map (·.type.name.toList) = ys.map (·.type.name.toList) := by
          rw [← splitOn_typeSignature hx, ← splitOn_typeSignature hy, h]
        have hinj : Function.Injective fun type : LiteralType => type.name.toList :=
          fun a b hab => LiteralType.name_inj (String.toList_inj.mp hab)
        refine List.map_injective_iff.mpr hinj ?_
        rw [List.map_map, List.map_map]
        exact hnames
  · intro h
    have hnames : ∀ zs : List Literal,
        zs.map (·.type.name) = (zs.map Literal.type).map LiteralType.name := by
      intro zs
      rw [List.map_map]
      rfl
    rw [typeSignature, typeSignature, hnames, hnames, h]

/-! ## Angle brackets -/

/-- What holds of the names of types and is kept when a comma joins two texts holds of every
signature. -/
theorem typeSignature_induction {P : List Char → Prop} (nil : P [])
    (name : ∀ type : LiteralType, P type.name.toList)
    (comma : ∀ cs ds, P cs → P ds → P (cs ++ ',' :: ds)) (literals : List Literal) :
    P (typeSignature literals).toList := by
  rw [typeSignature, String.toList_intercalate, List.map_map]
  induction literals with
  | nil => exact nil
  | cons literal literals ih =>
    cases literals with
    | nil => simpa using name literal.type
    | cons next literals =>
      rw [List.map_cons, List.map_cons, List.intercalate_cons_cons, List.append_assoc]
      exact comma _ _ (name literal.type) ih

/-- Every `>` closes a `<` in front of it, and no `<` is left open. -/
structure Balanced (cs : List Char) : Prop where
  closes : ∀ front, front <+: cs → front.count '>' ≤ front.count '<'
  closed : cs.count '<' = cs.count '>'

theorem LiteralType.balanced_name (type : LiteralType) : Balanced type.name.toList := by
  have hnames : ∀ type : LiteralType,
      (∀ front ∈ type.name.toList.inits, front.count '>' ≤ front.count '<') ∧
        type.name.toList.count '<' = type.name.toList.count '>' := by
    decide +kernel
  obtain ⟨hcloses, hclosed⟩ := hnames type
  exact ⟨fun front hfront => hcloses front ((List.mem_inits _ _).mpr hfront), hclosed⟩

theorem Balanced.comma {cs ds : List Char} (hcs : Balanced cs) (hds : Balanced ds) :
    Balanced (cs ++ ',' :: ds) := by
  refine ⟨fun front hfront => ?_, by simp [hcs.closed, hds.closed]⟩
  obtain ⟨rest, hrest⟩ := hfront
  rcases List.append_eq_append_iff.mp hrest with ⟨more, rfl, -⟩ | ⟨more, rfl, hmore⟩
  · exact hcs.closes front (List.prefix_append front more)
  · have hclosed := hcs.closed
    cases more with
    | nil => simp [hclosed]
    | cons c more =>
      obtain ⟨rfl, rfl⟩ := List.cons.inj hmore
      have hcloses := hds.closes more (List.prefix_append more rest)
      simpa [hclosed] using hcloses

theorem balanced_typeSignature (literals : List Literal) :
    Balanced (typeSignature literals).toList :=
  typeSignature_induction ⟨by simp, rfl⟩ LiteralType.balanced_name
    (fun _ _ hcs hds => hcs.comma hds) literals

/-- A balanced text does not go on behind a `>` that closes another one. -/
theorem Balanced.not_isPrefix {cs ds : List Char} (hcs : Balanced cs) (hds : Balanced ds) :
    ¬ cs ++ ['>'] <+: ds := by
  intro h
  have hcloses : cs.count '>' + 1 ≤ cs.count '<' := by simpa using hds.closes _ h
  rw [hcs.closed] at hcloses
  omega

/-- **The closing bracket** behind a balanced text is the first one that has no `<` in front of it. -/
theorem Balanced.closing {cs ds rest rest' : List Char} (hcs : Balanced cs) (hds : Balanced ds)
    (h : cs ++ '>' :: rest = ds ++ '>' :: rest') : cs = ds ∧ rest = rest' := by
  rcases List.append_eq_append_iff.mp h with ⟨more, rfl, hmore⟩ | ⟨more, rfl, hmore⟩
  · cases more with
    | nil => simpa using hmore
    | cons c more =>
      obtain ⟨rfl, -⟩ := List.cons.inj hmore
      exact absurd ⟨more, by simp⟩ (hcs.not_isPrefix hds)
  · cases more with
    | nil => simpa [eq_comm] using hmore
    | cons c more =>
      obtain ⟨rfl, -⟩ := List.cons.inj hmore
      exact absurd ⟨more, by simp⟩ (hds.not_isPrefix hcs)

end IntervalSuite.Itl
