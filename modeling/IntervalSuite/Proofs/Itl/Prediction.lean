import IntervalSuite.Proofs.Itl.Outline

/-!
# One token of lookahead is enough

`Accounts L F ts r` says that the result `r` of a rule on the lexemes `ts` is what the language `L`
of its phrases asks for, when a token of `F` follows the phrase. If the rule ends, it has taken off
a phrase, and with the token behind it the input goes on only behind the phrase. If it stops at a
token, the tokens before it are the start of a phrase, and together with it they are not. If it stops
at an interval, the bounds of that interval are the first ones of different types.

* `Accounts.bind`: two rules, one behind the other.
* `Accounts.choose`: a rule for one of several kinds of phrases.
* `accounts_repeatWhile`: the loop, for any rule.
-/

namespace IntervalSuite.Itl.Outline

open scoped Computability
open Itl.Parser (Attempt peek fail repeatWhile)

/-- The end of file is among the lexemes, so that there is a next one. -/
def Ended (ts : List Lexeme) : Prop := .endOfFile ∈ ts.map Lexeme.token

/-- The result of a rule is explained by the language of its phrases and by the tokens that may
follow a phrase. -/
inductive Accounts {α : Type} (L : Language Token) (F : Token → Prop) (ts : List Lexeme) :
    Attempt (α × List Lexeme) → Prop where
  | ok {a : α} {us rest : List Lexeme} (hts : ts = us ++ rest) (hus : us.map Lexeme.token ∈ L)
      (hend : Ended rest) (hclean : Clean us rest)
      (hlook : ∀ K, StartsIn F K → ∀ vs, us.map Lexeme.token ++ (peek rest).token :: vs ∈ L * K →
        (peek rest).token :: vs ∈ K) : Accounts L F ts (.ok (a, rest))
  | unexpected {fault : Fault} {us rest : List Lexeme} {t : Lexeme} (hts : ts = us ++ t :: rest)
      (hfault : ∀ e, fault ≠ .node e) (hus : Viable L (us.map Lexeme.token))
      (hstop : ∀ K, StartsIn F K → ∀ vs, us.map Lexeme.token ++ t.token :: vs ∉ L * K) :
      Accounts L F ts (.error (fault, t.location))
  | mismatch {a b : FloatType} {us i rest : List Lexeme} (hts : ts = us ++ (i ++ rest))
      (hclean : Clean us (i ++ rest)) (hi : Mismatch i a b)
      (hus : Viable L ((us ++ i).map Lexeme.token)) :
      Accounts L F ts (.error (.node (.boundTypes a b), (peek i).location))

variable {α β : Type} {L L₁ L₂ : Language Token} {F F₁ F₂ : Token → Prop}
variable {ts rest : List Lexeme} {l : Lexeme}

theorem Accounts.ended {a : α} (h : Accounts L F ts (.ok (a, rest))) : Ended rest := by
  cases h
  assumption

theorem Accounts.mono {r : Attempt (α × List Lexeme)} (h : Accounts L F ts r)
    (hF : ∀ t, F₁ t → F t) : Accounts L F₁ ts r := by
  cases h with
  | ok hts hus hend hclean hlook =>
    exact .ok hts hus hend hclean fun K hK => hlook K (hK.mono hF)
  | unexpected hts hfault hus hstop =>
    exact .unexpected hts hfault hus fun K hK => hstop K (hK.mono hF)
  | mismatch hts hclean hi hus => exact .mismatch hts hclean hi hus

/-! ## Single tokens -/

theorem Ended.tail (h : Ended (l :: rest)) (hl : l.token ≠ .endOfFile) : Ended rest := by
  rcases List.mem_cons.mp h with heq | hmem
  · exact absurd heq.symm hl
  · exact hmem

theorem Ended.exists_cons (h : Ended ts) : ∃ l rest, ts = l :: rest :=
  List.exists_cons_of_ne_nil fun hnil => by simp [Ended, hnil] at h

/-- What follows the start `us` of the lexemes begins with their next token. -/
theorem exists_eq_peek_cons (us rest : List Lexeme) (vs : List Token) :
    ∃ ws, us.map Lexeme.token ++ (peek rest).token :: vs = (peek (us ++ rest)).token :: ws := by
  cases us with
  | nil => exact ⟨vs, rfl⟩
  | cons u us => exact ⟨_, rfl⟩

theorem cons_mem_oneOf_mul {kind : Token → Bool} {K : Language Token} {t : Token} {v : List Token}
    (h : t :: v ∈ oneOf kind * K) : kind t = true ∧ v ∈ K := by
  obtain ⟨_, ⟨u, hu, rfl⟩, b, hb, heq⟩ := Language.mem_mul.mp h
  obtain ⟨rfl, rfl⟩ := List.cons.inj heq
  exact ⟨hu, hb⟩

/-- A rule that takes off one token of the kind that it expects. -/
theorem accounts_one {kind : Token → Bool} {a : α} (hl : kind l.token = true)
    (hne : l.token ≠ .endOfFile) (hclean : ¬ Mismatched (l :: rest)) (hend : Ended (l :: rest)) :
    Accounts (oneOf kind) F (l :: rest) (.ok (a, rest)) := by
  refine .ok (show l :: rest = [l] ++ rest from rfl) ⟨l.token, hl, rfl⟩ (hend.tail hne)
    ⟨hclean, trivial⟩ ?_
  intro K _ vs h
  exact (cons_mem_oneOf_mul h).2

/-- A rule that stops at the next token, with which no phrase starts. -/
theorem accounts_stop {G : Token → Prop} {fault : Fault} (hfault : ∀ e, fault ≠ .node e)
    (hL : Viable L []) (hG : StartsIn G L) (hnot : ¬ G l.token) :
    Accounts (α := α) L F (l :: rest) (.error (fault, l.location)) := by
  refine .unexpected (show l :: rest = [] ++ l :: rest from rfl) hfault hL ?_
  intro K _ vs h
  exact hnot ((hG.mul K).head h)

theorem accounts_fail {G : Token → Prop} {e : Expected} (hend : Ended ts) (hL : Viable L [])
    (hG : StartsIn G L) (hnot : ¬ G (peek ts).token) : Accounts (α := α) L F ts (fail e ts) := by
  obtain ⟨l, rest, rfl⟩ := hend.exists_cons
  exact accounts_stop (by simp) hL hG hnot

/-- A rule that takes nothing off. -/
theorem accounts_nothing {a : α} (hend : Ended ts) : Accounts 1 F ts (.ok (a, ts)) := by
  refine .ok (show ts = [] ++ ts from rfl) rfl hend trivial ?_
  intro K _ vs h
  rwa [one_mul] at h

/-! ## Rules behind each other -/

/-- A rule behind one that has ended: what follows the first phrase is the second one and what
follows that. -/
theorem Accounts.append {a : α} {r : Attempt (β × List Lexeme)}
    (h₁ : Accounts L₁ F₁ ts (.ok (a, rest)))
    (hfollow : ∀ K, StartsIn F₂ K → StartsIn F₁ (L₂ * K)) (h₂ : Accounts L₂ F₂ rest r) :
    Accounts (L₁ * L₂) F₂ ts r := by
  obtain ⟨hts, hus, -, hclean, hlook⟩ := h₁
  rename_i us
  -- Whatever the second rule takes off, it starts with the token that the first one has seen.
  have hnext : ∀ us' rest', rest = us' ++ rest' → ∀ K, StartsIn F₂ K → ∀ vs,
      (us ++ us').map Lexeme.token ++ (peek rest').token :: vs ∈ L₁ * L₂ * K →
        us'.map Lexeme.token ++ (peek rest').token :: vs ∈ L₂ * K := by
    rintro us' rest' rfl K hK vs h
    obtain ⟨ws, hws⟩ := exists_eq_peek_cons us' rest' vs
    rw [List.map_append, List.append_assoc, mul_assoc, hws] at h
    rw [hws]
    exact hlook _ (hfollow K hK) ws h
  cases h₂ with
  | ok hrest hus' hend' hclean' hlook' =>
    refine .ok (by rw [hts, hrest, List.append_assoc]) ?_ hend'
      (clean_append.mpr ⟨hrest ▸ hclean, hclean'⟩) ?_
    · rw [List.map_append]
      exact Language.append_mem_mul hus hus'
    · intro K hK vs h
      exact hlook' K hK vs (hnext _ _ hrest K hK vs h)
  | @unexpected fault us' rest' t hrest hfault hus' hstop =>
    refine .unexpected (by rw [hts, hrest, List.append_assoc]) hfault ?_ ?_
    · rw [List.map_append]
      exact .append hus hus'
    · intro K hK vs h
      exact hstop K hK vs (hnext us' (t :: rest') hrest K hK vs h)
  | @mismatch a b us' i rest' hrest hclean' hi hus' =>
    refine .mismatch (by rw [hts, hrest, List.append_assoc])
      (clean_append.mpr ⟨hrest ▸ hclean, hclean'⟩) hi ?_
    rw [List.append_assoc, List.map_append]
    exact .append hus hus'

/-- A rule that has stopped stops those behind it too. -/
theorem Accounts.stopped {e : Fault × Location}
    (h : Accounts (α := α) L₁ F₁ ts (.error e))
    (hfollow : ∀ K, StartsIn F₂ K → StartsIn F₁ (L₂ * K)) (hL₂ : Viable L₂ []) :
    Accounts (α := β) (L₁ * L₂) F₂ ts (.error e) := by
  cases h with
  | unexpected hts hfault hus hstop =>
    refine .unexpected hts hfault (hus.mul hL₂) ?_
    intro K hK vs hmem
    rw [mul_assoc] at hmem
    exact hstop _ (hfollow K hK) vs hmem
  | mismatch hts hclean hi hus => exact .mismatch hts hclean hi (hus.mul hL₂)

theorem Accounts.bind {x : Attempt (α × List Lexeme)}
    {f : α × List Lexeme → Attempt (β × List Lexeme)} (hx : Accounts L₁ F₁ ts x)
    (hfollow : ∀ K, StartsIn F₂ K → StartsIn F₁ (L₂ * K)) (hL₂ : Viable L₂ [])
    (hf : ∀ a rest, x = .ok (a, rest) → Ended rest → Accounts L₂ F₂ rest (f (a, rest))) :
    Accounts (L₁ * L₂) F₂ ts (x >>= f) := by
  cases x with
  | error e => exact hx.stopped hfollow hL₂
  | ok r =>
    obtain ⟨a, rest⟩ := r
    exact hx.append hfollow (hf a rest rfl hx.ended)

/-- A rule behind one that ends whatever the next token is. -/
theorem Accounts.seq {x : Attempt (α × List Lexeme)}
    {f : α × List Lexeme → Attempt (β × List Lexeme)} (hx : Accounts L₁ (fun _ => True) ts x)
    (hL₂ : Viable L₂ [])
    (hf : ∀ a rest, x = .ok (a, rest) → Ended rest → Accounts L₂ F rest (f (a, rest))) :
    Accounts (L₁ * L₂) F ts (x >>= f) :=
  hx.bind (fun _ hK => hK.mul_any L₂) hL₂ hf

theorem Accounts.map {x : Attempt (α × List Lexeme)} (hx : Accounts L F ts x) (g : α → β) :
    Accounts L F ts (x >>= fun r => .ok (g r.1, r.2)) := by
  cases hx with
  | ok hts hus hend hclean hlook => exact .ok hts hus hend hclean hlook
  | unexpected hts hfault hus hstop => exact .unexpected hts hfault hus hstop
  | mismatch hts hclean hi hus => exact .mismatch hts hclean hi hus

/-- A token and a rule behind it. -/
theorem Accounts.cons {kind : Token → Bool} {r : Attempt (β × List Lexeme)}
    (h : Accounts L F rest r) (hl : kind l.token = true) (hne : l.token ≠ .endOfFile)
    (hclean : ¬ Mismatched (l :: rest)) (hend : Ended (l :: rest)) :
    Accounts (oneOf kind * L) F (l :: rest) r := by
  have hone : Accounts (oneOf kind) (fun _ => True) (l :: rest) (.ok ((), rest)) :=
    accounts_one hl hne hclean hend
  exact hone.append (fun _ hK => hK.mul_any L) h

/-! ## Choices on the next token -/

/-- A rule for one of several kinds of phrases, where the next token leaves only this kind. -/
theorem Accounts.choose {r : Attempt (α × List Lexeme)} (h : Accounts L₁ F ts r)
    (hle : ∀ w ∈ L₁, w ∈ L)
    (honly : ∀ K, StartsIn F K → ∀ vs, (peek ts).token :: vs ∈ L * K →
      (peek ts).token :: vs ∈ L₁ * K) : Accounts L F ts r := by
  cases h with
  | @ok a us rest hts hus hend hclean hlook =>
    refine .ok hts (hle _ hus) hend hclean ?_
    intro K hK vs hmem
    obtain ⟨ws, hws⟩ := exists_eq_peek_cons us rest vs
    refine hlook K hK vs ?_
    rw [hws, ← hts] at hmem ⊢
    exact honly K hK ws hmem
  | @unexpected fault us rest t hts hfault hus hstop =>
    refine .unexpected hts hfault (hus.mono hle) ?_
    intro K hK vs hmem
    obtain ⟨ws, hws⟩ := exists_eq_peek_cons us (t :: rest) vs
    refine hstop K hK vs ?_
    change us.map Lexeme.token ++ t.token :: vs = _ at hws
    rw [hws, ← hts] at hmem ⊢
    exact honly K hK ws hmem
  | mismatch hts hclean hi hus => exact .mismatch hts hclean hi (hus.mono hle)

theorem Accounts.choose_left {G : Token → Prop} {r : Attempt (α × List Lexeme)}
    (h : Accounts L₁ F ts r) (hL₂ : StartsIn G L₂) (hnot : ¬ G (peek ts).token) :
    Accounts (L₁ + L₂) F ts r := by
  refine h.choose (fun w hw => .inl hw) ?_
  intro K hK vs hmem
  rw [add_mul] at hmem
  rcases hmem with hmem | hmem
  · exact hmem
  · exact absurd ((hL₂.mul K).head hmem) hnot

theorem Accounts.choose_right {G : Token → Prop} {r : Attempt (α × List Lexeme)}
    (h : Accounts L₂ F ts r) (hL₁ : StartsIn G L₁) (hnot : ¬ G (peek ts).token) :
    Accounts (L₁ + L₂) F ts r := by
  rw [add_comm]
  exact h.choose_left hL₁ hnot

/-- An optional phrase that is there, as nothing that follows it starts with the next token. -/
theorem Accounts.present {r : Attempt (α × List Lexeme)} (h : Accounts L F ts r)
    (hnot : ¬ F (peek ts).token) : Accounts (1 + L) F ts r := by
  refine h.choose (fun w hw => .inr hw) ?_
  intro K hK vs hmem
  rw [add_mul, one_mul] at hmem
  rcases hmem with hmem | hmem
  · exact absurd (hK.head hmem) hnot
  · exact hmem

/-- An optional phrase that is not there. -/
theorem accounts_absent {G : Token → Prop} {a : α} (hend : Ended ts) (hL : StartsIn G L)
    (hnot : ¬ G (peek ts).token) : Accounts (1 + L) F ts (.ok (a, ts)) :=
  (accounts_nothing hend).choose_left hL hnot

/-! ## Repetition -/

theorem Accounts.star_present {r : Attempt (α × List Lexeme)} (h : Accounts (L * L∗) F ts r)
    (hnot : ¬ F (peek ts).token) : Accounts L∗ F ts r := by
  rw [← Language.one_add_self_mul_kstar_eq_kstar]
  exact h.present hnot

theorem accounts_star_absent {G : Token → Prop} {a : α} (hend : Ended ts) (hL : StartsIn G L)
    (hnot : ¬ G (peek ts).token) : Accounts L∗ F ts (.ok (a, ts)) := by
  rw [← Language.one_add_self_mul_kstar_eq_kstar]
  exact accounts_absent hend (hL.mul L∗) hnot

/-- **The loop.** If the tokens with which a phrase starts are those at which the loop goes on, and a
phrase may stand behind a phrase, the loop reads a sequence of phrases up to a token that ends it. -/
theorem accounts_repeatWhile {more : Token → Bool} {p : List Lexeme → Attempt (α × List Lexeme)}
    (hp : ∀ ts, Ended ts → Accounts L F ts (p ts))
    (hL : StartsIn (fun t => more t = true ∧ F t) L) (hend : Ended ts) :
    Accounts (L * L∗) (fun t => F t ∧ more t = false) ts (repeatWhile more p ts) := by
  have hfollow : ∀ K, StartsIn (fun t => F t ∧ more t = false) K → StartsIn F (L∗ * K) :=
    fun K hK => (hL.mono fun _ h => h.2).star_mul (hK.mono fun _ h => h.1)
  fun_induction repeatWhile more p ts with
  | case1 ts e hfirst =>
    have h := hp ts hend
    rw [hfirst] at h
    exact h.stopped hfollow (.star L)
  | case2 ts a rest hfirst hmore e hloop ih =>
    have h := hp ts hend
    rw [hfirst] at h
    have htail := ih h.ended
    rw [hloop] at htail
    have hstar := htail.star_present (by simp [hmore.2])
    exact h.append hfollow (hstar.map id)
  | case3 ts a rest hfirst hmore as rest' hloop ih =>
    have h := hp ts hend
    rw [hfirst] at h
    have htail := ih h.ended
    rw [hloop] at htail
    have hstar := htail.star_present (by simp [hmore.2])
    exact h.append hfollow (hstar.map (a :: ·))
  | case4 ts a rest hfirst hmore =>
    have h := hp ts hend
    rw [hfirst] at h
    obtain ⟨hts, hus, hrest, -, -⟩ := id h
    rename_i us
    -- A phrase is not empty, so the loop has made progress and ends because of the next token.
    obtain ⟨t, v, hcons, -⟩ := hL _ hus
    have hshorter : rest.length < ts.length := by
      have hlen := congrArg List.length hcons
      rw [List.length_map, List.length_cons] at hlen
      rw [hts, List.length_append]
      omega
    have hnot : ¬ (more (peek rest).token = true ∧ F (peek rest).token) :=
      fun h => hmore ⟨hshorter, h.1⟩
    exact h.append hfollow (accounts_star_absent hrest hL hnot)

end IntervalSuite.Itl.Outline
