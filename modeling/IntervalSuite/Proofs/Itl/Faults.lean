import IntervalSuite.Proofs.Itl.Lookahead

/-!
# Faults stand where a file goes wrong

The parser stops at the first token with which no file can go on, or at the first interval that does
not fit.

* `isDocument_iff`: the grammar derives a document iff the outline has its tokens and all its
  intervals fit, so the outline is the grammar without the condition on the types of bounds.
* `nodup_locations`: no two tokens of a source stand at one location.
* `parseDocument_error_location`: what the location of a fault says about the source.
-/

namespace IntervalSuite.Itl

open Outline

/-! ## Locations -/

theorem Tiling.nodup_locations {cs : List Char} {ps : List Piece} (h : Tiling cs ps)
    (before : List Char) :
    (((withPrefixes before ps).filterMap lexemeOf? ++
      [Lexeme.mk .endOfFile (.behind (before ++ cs))]).map Lexeme.location).Nodup := by
  induction h generalizing before with
  | nil => simp [withPrefixes]
  | @cons p rest ps hne hp hrest ih =>
    have htail := ih (before ++ p.text)
    rw [List.append_assoc] at htail
    cases p with
    | token t =>
      refine List.nodup_cons.mpr ⟨fun hmem => ?_, htail⟩
      obtain ⟨l, hl, hloc⟩ := List.mem_map.mp hmem
      rcases List.mem_append.mp hl with hl | hl
      · obtain ⟨u, -, -, -, -, -, hu, -⟩ := hrest.exists_scan hl
        rw [hu, List.append_assoc] at hloc
        exact Location.behind_append_ne (by simp [hne]) before hloc
      · obtain rfl := List.mem_singleton.mp hl
        exact Location.behind_append_ne (by simp [hne]) before hloc
    | blank | dropped | illegal => exact htail

/-- No two tokens stand at one location. -/
theorem nodup_locations (source : String) : ((tokenize source).map Lexeme.location).Nodup := by
  rw [tokenize_eq]
  exact (tiling_pieces source.toList).nodup_locations []

namespace Outline

/-! ## The grammar and its outline -/

theorem ended_tokenize (source : String) : Ended (tokenize source) := by
  simp [Ended, tokenize_eq]

theorem startsIn_endOfFile : StartsIn (· = .endOfFile) (tok .endOfFile) := startsIn_tok _

/-- Lexemes at which the parser stops are not in the outline, or one of their intervals does not
fit. -/
theorem Accounts.not_document {ts : List Lexeme} {e : Fault × Location}
    (h : Accounts (α := Document) body (· = .endOfFile) ts (.error e)) :
    ¬ (ts.map Lexeme.token ∈ document ∧ Clean ts []) := by
  rintro ⟨hmem, hclean⟩
  cases h with
  | unexpected hts _ _ hstop =>
    rw [hts, List.map_append, List.map_cons] at hmem
    exact hstop _ startsIn_endOfFile _ hmem
  | @mismatch a b us i rest hts _ hi _ =>
    rw [hts, clean_append] at hclean
    obtain ⟨l, is, hcons⟩ := hi.exists_cons
    have hfits := hclean.2
    rw [hcons] at hfits
    exact hfits.1 ⟨i, a, b, hi, rest, by simp [hcons]⟩

/-- **The outline is the grammar without the types of bounds.** The grammar derives a document from
lexemes iff the outline has their tokens and no interval has bounds of different types. -/
theorem isDocument_iff {fileName : String} {ts : List Lexeme} {l : Location}
    (hts : ∀ u ∈ ts, u.token ≠ .endOfFile) :
    (∃ d, Grammar.IsDocument fileName (ts ++ [⟨.endOfFile, l⟩]) d) ↔
      ts.map Lexeme.token ++ [.endOfFile] ∈ document ∧ Clean (ts ++ [⟨.endOfFile, l⟩]) [] := by
  have hend : Ended (ts ++ [⟨.endOfFile, l⟩]) := by simp [Ended]
  have haccounts := accounts_document fileName hend
  constructor
  · rintro ⟨d, hd⟩
    obtain ⟨rest, hdoc⟩ := Grammar.document_complete hd
    obtain ⟨us, hus, hconcat, heof, -⟩ := Grammar.document_sound hdoc
    obtain rfl := Grammar.rest_eq_endOfFile hts hus hconcat heof
    rw [hdoc] at haccounts
    cases haccounts with
    | ok heq hmem _ hclean _ =>
      rw [← List.append_cancel_right heq] at hmem hclean
      exact ⟨Language.append_mem_mul hmem ⟨.endOfFile, decide_eq_true rfl, rfl⟩,
        clean_append.mpr ⟨hclean, not_mismatched_of_ne (by simp) _, trivial⟩⟩
  · intro h
    cases hparse : parseTokens fileName (ts ++ [⟨.endOfFile, l⟩]) with
    | ok d => exact ⟨d, (Grammar.parseTokens_eq_ok_iff hts).mp hparse⟩
    | error e =>
      unfold parseTokens at hparse
      split at hparse
      · cases hparse
      · rename_i hdoc
        rw [hdoc] at haccounts
        exact absurd ⟨by simpa using h.1, h.2⟩ haccounts.not_document

/-! ## Faults -/

/-- The tokens are the start of a source whose tokens are in the outline of documents. -/
def IsStart (ts : List Token) : Prop :=
  ∃ source, (tokenize source).map Lexeme.token ∈ document ∧
    ts <+: (tokenize source).map Lexeme.token

/-- Tokens of a source that are the start of a phrase are the start of another source. -/
theorem Viable.isStart {source : String} {us rest : List Lexeme}
    (h : Viable body (us.map Lexeme.token)) (hsource : tokenize source = us ++ rest)
    (hrest : rest ≠ []) : IsStart (us.map Lexeme.token) := by
  have hspelled := allSpelled_tokenize source
  rw [hsource, List.dropLast_append_of_ne_nil hrest, List.map_append, allSpelled_append] at hspelled
  obtain ⟨vs, hvs, hmem⟩ := h
  have htokens := tokenize_spell (allSpelled_append.mpr ⟨hspelled.1, hvs⟩)
  refine ⟨String.ofList (spell (us.map Lexeme.token ++ vs)), ?_, ?_⟩
  · rw [htokens]
    exact Language.append_mem_mul hmem ⟨.endOfFile, decide_eq_true rfl, rfl⟩
  · rw [htokens, List.append_assoc]
    exact List.prefix_append _ _

/-- No interval that does not fit starts before the first one. -/
theorem Clean.length_le {us vs i rest : List Lexeme} {a b : FloatType} (h : Clean us rest)
    (hi : Mismatch i a b) (hpre : vs ++ i <+: us ++ rest) : us.length ≤ vs.length := by
  by_contra hlt
  have hvs : vs <+: us :=
    List.prefix_of_prefix_length_le ((List.prefix_append vs i).trans hpre)
      (List.prefix_append us rest) (by omega)
  obtain ⟨ws, rfl⟩ := hvs
  cases ws with
  | nil => simp at hlt
  | cons l ws =>
    rw [List.append_assoc, List.prefix_append_right_inj] at hpre
    exact (clean_append.mp h).2.1 ⟨i, a, b, hi, hpre⟩

theorem count_location {source : String} {us rest : List Lexeme} {t : Lexeme}
    (h : tokenize source = us ++ t :: rest) :
    ((tokenize source).map Lexeme.location).count t.location = 1 := by
  refine List.count_eq_one_of_mem (nodup_locations source) (List.mem_map_of_mem ?_)
  simp [h]

/-- Behind an interval there is at least the end of file. -/
theorem Mismatch.rest_ne_nil {source : String} {us i rest : List Lexeme} {a b : FloatType}
    (hi : Mismatch i a b) (h : tokenize source = us ++ (i ++ rest)) : rest ≠ [] := by
  rintro rfl
  have hlast := congrArg (fun ts => ts.getLast?.map Lexeme.token) (h.symm.trans (tokenize_eq source))
  cases hi
  simp at hlast

/-- **A fault stands where a file goes wrong.** The location of a fault is that of exactly one token.
Up to that token the source is the start of a file, and with it of none; or the token is the bracket
of the first interval with bounds of different types, and up to the end of that interval the source
is the start of a file if types do not matter. -/
theorem parseDocument_error_location (source fileName : String) (e : ParseError)
    (h : parseDocument source fileName = .error e) :
    ((tokenize source).map Lexeme.location).count e.location = 1 ∧
      ((∀ n, e.fault ≠ .node n) → ∃ us t rest, tokenize source = us ++ t :: rest ∧
        t.location = e.location ∧ IsStart (us.map Lexeme.token) ∧
        ∀ w ∈ document, ¬ (us ++ [t]).map Lexeme.token <+: w) ∧
      (∀ n, e.fault = .node n → ∃ us i rest a b, tokenize source = us ++ (i ++ rest) ∧
        Mismatch i a b ∧ n = .boundTypes a b ∧ (Parser.peek i).location = e.location ∧
        (∀ vs j c d, Mismatch j c d → vs ++ j <+: tokenize source → us.length ≤ vs.length) ∧
        IsStart ((us ++ i).map Lexeme.token)) := by
  have haccounts := accounts_document fileName (ended_tokenize source)
  unfold parseDocument parseTokens at h
  split at h
  · cases h
  rename_i fault location hdoc
  cases h
  rw [hdoc] at haccounts
  cases haccounts with
  | @unexpected fault us rest t hts hfault hviable hstop =>
    refine ⟨count_location hts, fun _ => ⟨us, t, rest, hts, rfl, hviable.isStart hts (by simp), ?_⟩,
      fun n hn => absurd hn (hfault n)⟩
    rintro w hw ⟨vs, rfl⟩
    rw [List.map_append, List.append_assoc] at hw
    exact hstop _ startsIn_endOfFile vs hw
  | @mismatch a b us i rest hts hclean hi hviable =>
    obtain ⟨l, is, hcons⟩ := hi.exists_cons
    have hfirst : (Parser.peek i).location = l.location := by rw [hcons]; rfl
    have hbracket : tokenize source = us ++ l :: (is ++ rest) := by rw [hts, hcons]; rfl
    have hsplit : tokenize source = us ++ i ++ rest := by rw [hts, List.append_assoc]
    refine ⟨by rw [hfirst]; exact count_location hbracket, fun hnot => absurd rfl (hnot _), ?_⟩
    rintro _ ⟨⟩
    refine ⟨us, i, rest, a, b, hts, hi, rfl, rfl, ?_, hviable.isStart hsplit (hi.rest_ne_nil hts)⟩
    intro vs j c d hj hpre
    exact hclean.length_le hj (hts ▸ hpre)

/-- A semicolon where a test has no outputs yet, and an interval between a double and a float. -/
theorem parseDocument_error_location_samples :
    (∃ e, parseDocument "testcase t\x7bf 1;\x7d" "t.itl" = .error e ∧ e.location = ⟨1, 15⟩ ∧
      ∃ us t rest, tokenize "testcase t\x7bf 1;\x7d" = us ++ t :: rest ∧ t.location = ⟨1, 15⟩ ∧
        IsStart (us.map Lexeme.token) ∧ ∀ w ∈ document, ¬ (us ++ [t]).map Lexeme.token <+: w) ∧
    ∃ e, parseDocument "testcase t\x7bf[1,2.F]=1;\x7d" "t.itl" = .error e ∧ e.location = ⟨1, 13⟩ ∧
      ∃ us i rest, tokenize "testcase t\x7bf[1,2.F]=1;\x7d" = us ++ (i ++ rest) ∧
        Mismatch i .double .float ∧ (Parser.peek i).location = ⟨1, 13⟩ ∧
        IsStart ((us ++ i).map Lexeme.token) := by
  have hsemicolon : parseDocument "testcase t\x7bf 1;\x7d" "t.itl" =
      .error ⟨.unexpected (.outputs "f") (.punct .semicolon), ⟨1, 15⟩, "t.itl"⟩ := by
    decide +kernel
  have hbounds : parseDocument "testcase t\x7bf[1,2.F]=1;\x7d" "t.itl" =
      .error ⟨.node (.boundTypes .double .float), ⟨1, 13⟩, "t.itl"⟩ := by
    decide +kernel
  obtain ⟨us, i, rest, a, b, hts, hi, ⟨⟩, hloc, -, hstart⟩ :=
    (parseDocument_error_location _ _ _ hbounds).2.2 _ rfl
  exact ⟨⟨_, hsemicolon, rfl, (parseDocument_error_location _ _ _ hsemicolon).2.1 (by simp)⟩,
    _, hbounds, rfl, us, i, rest, hts, hi, hloc, hstart⟩

end Outline

end IntervalSuite.Itl
