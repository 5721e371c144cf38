import IntervalSuite.Proofs.Itl.Cursor
import IntervalSuite.Proofs.Itl.Parsing

/-!
# A parser with an index stays inside of its tokens

The tokens of a source end with their only end of file, and a step never passes that. So a cursor is
always at a token (`Cursor.Valid`), and each of its rules does to the position what the rule of the
parser does to the list of tokens that are left (`Agrees`). A rule of the parser never traps.

* `Valid.look`: all that one step can do.
* `Agrees.bind`, `agrees_rounds`, `agrees_repeatWhile`: rules behind each other, and loops.
* `parseDocument_untrapped`: the whole parser.
-/

namespace IntervalSuite.Itl.Cursor

open Itl.Parser (Attempt)

/-- The cursor is at a token, and the last and only end of file is the last token. -/
structure Valid (c : Cursor) : Prop where
  inRange : c.position < c.tokens.length
  ended : ∃ body l, c.tokens = body ++ [⟨.endOfFile, l⟩] ∧ ∀ t ∈ body, t.token ≠ .endOfFile

theorem valid_start (source : String) : (start source).Valid := by
  have htokens := tokenize_eq source
  refine ⟨?_, _, _, htokens, (tiling_pieces source.toList).ne_endOfFile []⟩
  rw [start, htokens, List.length_append, List.length_singleton]
  exact Nat.succ_pos _

variable {α β : Type} {c c' : Cursor} {l : Lexeme} {ts : List Lexeme}

/-! ## Steps -/

theorem run_bind {x : Rule α} {f : α → Rule β} {a : α} (h : x c = .ok (a, c')) :
    (x >>= f) c = f a c' := by
  change (x c >>= fun r => f r.1 r.2) = f a c'
  rw [h]
  rfl

theorem run_bind_error {x : Rule α} {f : α → Rule β} {stop : Stop} (h : x c = .error stop) :
    (x >>= f) c = .error stop := by
  change (x c >>= fun r => f r.1 r.2) = .error stop
  rw [h]
  rfl

theorem getElem?_position (h : c.rest = l :: ts) : c.tokens[c.position]? = some l := by
  have hdrop : (c.tokens.drop c.position)[0]? = c.tokens[c.position]? := by
    rw [List.getElem?_drop, Nat.add_zero]
  rw [← hdrop, ← rest, h]
  rfl

theorem tokenAt_eq {index : Nat} (h : c.tokens[index]? = some l) :
    tokenAt index c = .ok (l, c) := by
  rw [tokenAt, h]

/-- Behind a token that is not the end of the file there is another one. -/
theorem Valid.next (h : c.Valid) (hrest : c.rest = l :: ts) (hl : l.token ≠ .endOfFile) :
    c.next.Valid := by
  obtain ⟨body, e, htokens, -⟩ := h.ended
  have hlength : c.tokens.length = body.length + 1 := by simp [htokens]
  refine ⟨?_, h.ended⟩
  by_contra hlast
  have hposition : c.position = body.length := by
    have hinRange := h.inRange
    simp only [Cursor.next] at hlast
    omega
  rw [rest, htokens, hposition, List.drop_left] at hrest
  obtain rfl := (List.cons.inj hrest).1
  exact hl rfl

/-- **A step.** There is a next token; it can be looked at, and passed if it is not the end of the
file. -/
theorem Valid.look (h : c.Valid) : ∃ l ts, c.rest = l :: ts ∧ peek c = .ok (l, c) ∧
    (l.token ≠ .endOfFile → advance c = .ok (l, c.next) ∧ c.next.Valid ∧ c.next.rest = ts) := by
  obtain ⟨l, ts, hrest⟩ : ∃ l ts, c.rest = l :: ts := by
    refine List.exists_cons_of_ne_nil ?_
    rw [rest, ne_eq, List.drop_eq_nil_iff]
    exact Nat.not_le.mpr h.inRange
  have hget := getElem?_position hrest
  have hpeek : peek c = .ok (l, c) := tokenAt_eq hget
  refine ⟨l, ts, hrest, hpeek, fun hl => ?_⟩
  have hnext := h.next hrest hl
  refine ⟨?_, hnext, ?_⟩
  · have hend : isAtEnd c = .ok (false, c) := by
      rw [isAtEnd, run_bind hpeek, decide_eq_false hl]
      rfl
    have hstep : step c = .ok ((), c.next) := by
      rw [step, if_pos]
      exact hnext.inRange
    have hprevious : previous c.next = .ok (l, c.next) := tokenAt_eq hget
    rw [advance, run_bind hend]
    change (step >>= fun _ => previous) c = _
    rw [run_bind hstep, hprevious]
  · have htail := congrArg List.tail hrest
    rwa [rest, List.tail_drop] at htail

/-! ## Agreement with the parser -/

/-- The result of a rule is that of the parser on the tokens that are left: the cursor has moved
forward to those that the parser leaves, or there is the same fault. -/
inductive Agrees (c : Cursor) : Except Stop (α × Cursor) → Attempt (α × List Lexeme) → Prop where
  | ok {a : α} {c' : Cursor} (tokens : c'.tokens = c.tokens) (le : c.position ≤ c'.position)
      (valid : c'.Valid) : Agrees c (.ok (a, c')) (.ok (a, c'.rest))
  | error {e : Fault × Location} : Agrees c (.error (.fault e)) (.error e)

theorem Agrees.trans {d : Cursor} {r : Except Stop (α × Cursor)} {s : Attempt (α × List Lexeme)}
    (h : Agrees d r s) (htokens : d.tokens = c.tokens) (hle : c.position ≤ d.position) :
    Agrees c r s := by
  cases h with
  | ok htokens' hle' hvalid => exact .ok (htokens'.trans htokens) (hle.trans hle') hvalid
  | error => exact .error

/-- **Rules behind each other.** -/
theorem Agrees.bind {x : Rule α} {y : Attempt (α × List Lexeme)} {f : α → Rule β}
    {g : α × List Lexeme → Attempt (β × List Lexeme)} (hx : Agrees c (x c) y)
    (hf : ∀ a c', c'.Valid → y = .ok (a, c'.rest) → Agrees c' (f a c') (g (a, c'.rest))) :
    Agrees c ((x >>= f) c) (y >>= g) := by
  generalize hr : x c = r at hx
  cases hx with
  | ok htokens hle hvalid =>
    rw [run_bind hr]
    exact (hf _ _ hvalid rfl).trans htokens hle
  | error =>
    rw [run_bind_error hr]
    exact .error

theorem agrees_pure (h : c.Valid) (a : α) : Agrees c ((pure a : Rule α) c) (.ok (a, c.rest)) :=
  .ok rfl (Nat.le_refl _) h

theorem Agrees.map {x : Rule α} {y : Attempt (α × List Lexeme)} (h : Agrees c (x c) y) (f : α → β) :
    Agrees c ((x >>= fun a => pure (f a)) c) (y >>= fun r => .ok (f r.1, r.2)) :=
  h.bind fun _ _ hvalid _ => agrees_pure hvalid _

theorem agrees_take (h : c.Valid) (hrest : c.rest = l :: ts) (hl : l.token ≠ .endOfFile) (a : α) :
    Agrees c (take a c) (.ok (a, ts)) := by
  obtain ⟨l', ts', hrest', -, hadvance⟩ := h.look
  obtain ⟨rfl, rfl⟩ := List.cons.inj (hrest.symm.trans hrest')
  obtain ⟨hpass, hvalid, rfl⟩ := hadvance hl
  rw [take, run_bind hpass]
  exact .ok rfl (Nat.le_succ _) hvalid

theorem agrees_failWith (hpeek : peek c = .ok (l, c)) (fault : Fault) :
    Agrees c (failWith (α := α) fault c) (.error (fault, l.location)) := by
  rw [failWith, run_bind hpeek]
  exact .error

theorem agrees_fail (h : c.Valid) (e : Expected) :
    Agrees c (fail (α := α) e c) (Parser.fail e c.rest) := by
  obtain ⟨l, ts, hrest, hpeek, -⟩ := h.look
  rw [fail, run_bind hpeek, hrest]
  exact agrees_failWith hpeek _

/-- A token is passed if it is the expected one. -/
theorem accept_cases (h : c.Valid) (token : Token) (htoken : token ≠ .endOfFile) :
    (∃ l ts, c.rest = ⟨token, l⟩ :: ts ∧ accept token c = .ok (true, c.next) ∧ c.next.Valid ∧
      c.next.rest = ts) ∨
    ∃ l ts, c.rest = l :: ts ∧ l.token ≠ token ∧ accept token c = .ok (false, c) := by
  obtain ⟨⟨t, l⟩, ts, hrest, hpeek, hadvance⟩ := h.look
  by_cases ht : t = token
  · subst ht
    obtain ⟨hadvance, hvalid, hnext⟩ := hadvance htoken
    refine .inl ⟨l, ts, hrest, ?_, hvalid, hnext⟩
    rw [accept, run_bind hpeek, if_pos rfl, take, run_bind hadvance]
    rfl
  · refine .inr ⟨⟨t, l⟩, ts, hrest, ht, ?_⟩
    rw [accept, run_bind hpeek, if_neg ht]
    rfl

theorem agrees_expect (h : c.Valid) {token : Token} (htoken : token ≠ .endOfFile) (e : Expected) :
    Agrees c (expect token e c) (Parser.expect token e c.rest) := by
  obtain ⟨l, ts, hrest, haccept, hvalid, rfl⟩ | ⟨l, ts, hrest, hl, haccept⟩ := accept_cases h token htoken
  · rw [expect, run_bind haccept, hrest, Grammar.expect_cons]
    exact .ok rfl (Nat.le_succ _) hvalid
  · have hfail : Parser.expect token e c.rest = Parser.fail e c.rest := by
      rw [hrest, Parser.expect, if_neg hl]
    rw [expect, run_bind haccept, hfail]
    exact agrees_fail h e

/-- A rule behind a token that may be missing. -/
theorem agrees_optional {token : Token} (htoken : token ≠ .endOfFile) {x : Rule (Option α)}
    {p q : List Lexeme → Attempt (Option α × List Lexeme)}
    (hthere : ∀ l ts, p (⟨token, l⟩ :: ts) = q ts)
    (hmissing : ∀ ts, (∀ l rest, ts ≠ ⟨token, l⟩ :: rest) → p ts = .ok (none, ts))
    (hx : ∀ c, c.Valid → Agrees c (x c) (q c.rest)) (h : c.Valid) :
    Agrees c ((accept token >>= fun there => if there then x else pure none) c) (p c.rest) := by
  obtain ⟨l, ts, hrest, haccept, hvalid, rfl⟩ | ⟨l, ts, hrest, hl, haccept⟩ := accept_cases h token htoken
  · rw [run_bind haccept, hrest, hthere]
    exact (hx c.next hvalid).trans rfl (Nat.le_succ _)
  · have hother : ∀ l' rest, c.rest ≠ ⟨token, l'⟩ :: rest := by
      intro l' rest heq
      exact hl (congrArg Lexeme.token (List.cons.inj (hrest.symm.trans heq)).1)
    rw [run_bind haccept, hmissing c.rest hother]
    exact agrees_pure h none

/-! ## Loops -/

/-- A round of a loop does what a step of the recursion `loop` does: it ends it, it fails, or it
moves the cursor forward and goes on. -/
inductive RoundAgrees (round : Rule (Option α)) (loop : List Lexeme → Attempt (List α × List Lexeme))
    (c : Cursor) : Prop where
  | stop (hround : round c = .ok (none, c)) (hloop : loop c.rest = .ok ([], c.rest))
  | fail {e : Fault × Location} (hround : round c = .error (.fault e)) (hloop : loop c.rest = .error e)
  | next {a : α} {d : Cursor} (hround : round c = .ok (some a, d)) (htokens : d.tokens = c.tokens)
      (hlt : c.position < d.position) (hvalid : d.Valid)
      (hloop : loop c.rest = loop d.rest >>= fun r => .ok (a :: r.1, r.2))

theorem left_lt_of_position_lt (htokens : c'.tokens = c.tokens) (hlt : c.position < c'.position)
    (h : c'.Valid) : c'.left < c.left := by
  have hinRange := h.inRange
  rw [htokens] at hinRange
  rw [left, left, htokens]
  omega

theorem position_lt_of_length_lt (htokens : c'.tokens = c.tokens) (hle : c.position ≤ c'.position)
    (h : c'.rest.length < c.rest.length) : c.position < c'.position := by
  refine Nat.lt_of_le_of_ne hle fun heq => ?_
  rw [rest, rest, htokens, heq] at h
  exact lt_irrefl _ h

/-- **A loop** ends, as each round leaves fewer tokens. -/
theorem agrees_rounds {round : Rule (Option α)} (loop : List Lexeme → Attempt (List α × List Lexeme))
    (hround : ∀ c, c.Valid → RoundAgrees round loop c) (h : c.Valid) :
    Agrees c (rounds round c) (loop c.rest) := by
  induction hn : c.left using Nat.strongRecOn generalizing c with
  | ind n ih =>
    rw [rounds]
    cases hround c h with
    | stop hround hloop =>
      rw [hround, hloop]
      exact agrees_pure h []
    | fail hround hloop =>
      rw [hround, hloop]
      exact .error
    | @next a c' hround htokens hlt hvalid hloop =>
      have hleft := left_lt_of_position_lt htokens hlt hvalid
      have htail := ih c'.left (hn ▸ hleft) hvalid rfl
      rw [hround, hloop]
      simp only [hleft, dif_pos]
      generalize rounds round c' = r at htail
      generalize loop c'.rest = s at htail
      cases htail with
      | ok htokens' hle hvalid' => exact .ok (htokens'.trans htokens) (hlt.le.trans hle) hvalid'
      | error => exact .error

/-- What follows the first round of a loop. -/
def again (more : Token → Bool) (p : List Lexeme → Attempt (α × List Lexeme)) (ts : List Lexeme) :
    Attempt (List α × List Lexeme) :=
  if more (Parser.peek ts).token then Parser.repeatWhile more p ts else .ok ([], ts)

theorem repeatWhile_eq {more : Token → Bool} {p : List Lexeme → Attempt (α × List Lexeme)}
    (hprogress : ∀ ts a rest, p ts = .ok (a, rest) → rest.length < ts.length) (ts : List Lexeme) :
    Parser.repeatWhile more p ts =
      p ts >>= fun r => again more p r.2 >>= fun s => .ok (r.1 :: s.1, s.2) := by
  rw [Parser.repeatWhile]
  cases hp : p ts with
  | error e => rfl
  | ok r =>
    obtain ⟨a, rest⟩ := r
    have hshorter := hprogress ts a rest hp
    change (if _ : rest.length < ts.length ∧ _ then _ else _) =
      again more p rest >>= fun s => .ok (a :: s.1, s.2)
    rw [again]
    by_cases hmore : more (Parser.peek rest).token
    · rw [dif_pos ⟨hshorter, hmore⟩, if_pos hmore]
      cases Parser.repeatWhile more p rest <;> rfl
    · rw [dif_neg fun h => hmore h.2, if_neg hmore]
      rfl

section

variable {more : Token → Bool} {rule : Rule α} {p : List Lexeme → Attempt (α × List Lexeme)}
  (hp : ∀ c, c.Valid → Agrees c (rule c) (p c.rest))
  (hprogress : ∀ ts a rest, p ts = .ok (a, rest) → rest.length < ts.length)

include hp hprogress

theorem agrees_again (h : c.Valid) :
    Agrees c (rounds (roundWhile more rule) c) (again more p c.rest) := by
  refine agrees_rounds (again more p) (fun c h => ?_) h
  obtain ⟨l, ts, hrest, hpeek, -⟩ := h.look
  have hnext : (Parser.peek c.rest).token = l.token := by
    rw [hrest]
    rfl
  by_cases hmore : more l.token
  · have hround : roundWhile more rule c = (rule >>= fun a => pure (some a)) c := by
      rw [roundWhile, run_bind hpeek, if_pos hmore]
    have hloop : again more p c.rest =
        p c.rest >>= fun r => again more p r.2 >>= fun s => .ok (r.1 :: s.1, s.2) := by
      rw [again, hnext, if_pos hmore, repeatWhile_eq hprogress]
    have hagrees := hp c h
    generalize hr : rule c = r at hagrees
    generalize hs : p c.rest = s at hagrees
    cases hagrees with
    | @ok a c' htokens hle hvalid =>
      have hlt := position_lt_of_length_lt htokens hle (hprogress c.rest a c'.rest hs)
      refine .next (a := a) ?_ htokens hlt hvalid ?_
      · rw [hround, run_bind hr]
        rfl
      · rw [hloop, hs]
        rfl
    | @error e =>
      refine .fail (e := e) ?_ ?_
      · rw [hround, run_bind_error hr]
      · rw [hloop, hs]
        rfl
  · refine .stop ?_ ?_
    · rw [roundWhile, run_bind hpeek, if_neg hmore]
      rfl
    · rw [again, hnext, if_neg hmore]

theorem agrees_repeatWhile (h : c.Valid) :
    Agrees c (repeatWhile more rule c) (Parser.repeatWhile more p c.rest) := by
  induction hn : c.left using Nat.strongRecOn generalizing c with
  | ind n ih =>
    rw [repeatWhile, repeatWhile_eq hprogress]
    have hagrees := hp c h
    generalize rule c = r at hagrees
    generalize hs : p c.rest = s at hagrees
    cases hagrees with
    | error => exact .error
    | @ok a c' htokens hle hvalid =>
      have hlt := position_lt_of_length_lt htokens hle (hprogress c.rest a c'.rest hs)
      have hleft := left_lt_of_position_lt htokens hlt hvalid
      obtain ⟨l, ts, hrest, hpeek, -⟩ := hvalid.look
      have hnext : (Parser.peek c'.rest).token = l.token := by
        rw [hrest]
        rfl
      simp only [hleft, dif_pos, hpeek]
      change Agrees c _ (again more p c'.rest >>= fun s => .ok (a :: s.1, s.2))
      rw [again, hnext]
      by_cases hmore : more l.token
      · rw [if_pos hmore, if_pos hmore]
        have htail := ih c'.left (hn ▸ hleft) hvalid rfl
        generalize repeatWhile more rule c' = r at htail
        generalize Parser.repeatWhile more p c'.rest = s at htail
        cases htail with
        | ok htokens' hle' hvalid' => exact .ok (htokens'.trans htokens) (hle.trans hle') hvalid'
        | error => exact .error
      · rw [if_neg hmore, if_neg hmore]
        exact .ok htokens hle hvalid

end

/-! ## Rules -/

theorem length_lt_of_sound {R : List Lexeme → α → Prop}
    {p : List Lexeme → Attempt (α × List Lexeme)} (hp : Grammar.Sound R p)
    (hne : ∀ us a, R us a → us ≠ []) (ts : List Lexeme) (a : α) (rest : List Lexeme)
    (h : p ts = .ok (a, rest)) : rest.length < ts.length := by
  obtain ⟨us, rfl, hR⟩ := hp h
  have hpos := List.length_pos_iff.mpr (hne us a hR)
  rw [List.length_append]
  omega

theorem agrees_comments (h : c.Valid) :
    Agrees c (comments c) (.ok (Parser.comments c.rest)) := by
  refine agrees_rounds (fun ts => .ok (Parser.comments ts)) (fun c h => ?_) h
  obtain ⟨⟨t, l⟩, ts, hrest, hpeek, hadvance⟩ := h.look
  cases t with
  | comment style text =>
    obtain ⟨hpass, hvalid, hnext⟩ := hadvance (by simp)
    refine .next (a := ⟨style, text, l⟩) (d := c.next) ?_ rfl (Nat.lt_succ_self _) hvalid ?_
    · rw [run_bind hpeek]
      exact run_bind hpass
    · rw [hrest, hnext]
      rfl
  | _ =>
    refine .stop ?_ ?_
    · rw [run_bind hpeek]
      rfl
    · rw [hrest]
      rfl

theorem run_comments (h : c.Valid) : ∃ cs c', comments c = .ok (cs, c') ∧
    Parser.comments c.rest = (cs, c'.rest) ∧ c'.tokens = c.tokens ∧ c.position ≤ c'.position ∧
      c'.Valid := by
  have hagrees := agrees_comments h
  generalize hr : comments c = r at hagrees
  generalize hs : Parser.comments c.rest = s at hagrees
  cases hagrees with
  | ok htokens hle hvalid => exact ⟨_, _, rfl, rfl, htokens, hle, hvalid⟩

theorem agrees_bound (h : c.Valid) : Agrees c (bound c) (Parser.bound c.rest) := by
  have hfail := agrees_fail (α := FloatType × Scalar) h .bound
  obtain ⟨⟨t, l⟩, ts, hrest, hpeek, -⟩ := h.look
  rw [bound, run_bind hpeek]
  rw [hrest] at hfail ⊢
  cases t with
  | float text => exact agrees_take h hrest (by simp) _
  | infinity text => exact agrees_take h hrest (by simp) _
  | integer text =>
    simp only [Parser.bound]
    by_cases hsuffix : Parser.intSuffix text = ""
    · rw [if_pos hsuffix, if_pos hsuffix]
      exact agrees_take h hrest (by simp) _
    · rw [if_neg hsuffix, if_neg hsuffix]
      exact agrees_failWith hpeek _
  | _ => exact hfail

theorem agrees_decoration (h : c.Valid) : Agrees c (decoration c) (Parser.decoration c.rest) := by
  refine agrees_optional (by simp) (fun _ _ => rfl) (fun ts hts => ?_) (fun c h => ?_) h
  · unfold Parser.decoration
    split
    · exact absurd rfl (hts _ _)
    · rfl
  · have hfail := agrees_fail (α := Option Decoration) h .decoration
    obtain ⟨⟨t, l⟩, ts, hrest, hpeek, -⟩ := h.look
    rw [run_bind hpeek]
    rw [hrest] at hfail ⊢
    cases t with
    | decoration d => exact agrees_take h hrest (by simp) _
    | _ => exact hfail

/-- The word `entire` stands for an interval without bounds. -/
theorem agrees_decorated (h : c.Valid) (kind : SpecialKind) (type : FloatType) :
    Agrees c (decorated (.special kind type none) c)
      (Parser.decoration c.rest >>= fun r =>
        .ok ((Interval.special kind type none).decorate r.1, r.2)) := by
  refine (agrees_decoration h).bind fun d c' hvalid _ => ?_
  cases d with
  | none => exact agrees_pure hvalid _
  | some d => exact agrees_pure hvalid _

theorem agrees_intervalTail (h : c.Valid) (location : Location) :
    Agrees c (intervalTail location c) (Parser.intervalTail location c.rest) := by
  obtain ⟨⟨t, l⟩, ts, hrest, hpeek, hadvance⟩ := h.look
  rw [intervalTail, run_bind hpeek]
  cases t with
  | special kind text =>
    obtain ⟨hpass, hvalid, rfl⟩ := hadvance (by simp)
    rw [hrest]
    refine Agrees.trans (d := c.next) ?_ rfl (Nat.le_succ _)
    change Agrees c.next ((advance >>= _) c) _
    rw [run_bind hpass]
    refine (agrees_expect hvalid (by simp) _).bind fun _ c' hvalid' _ => ?_
    simp only []
    by_cases hkind : kind = .entire
    · rw [if_pos hkind, if_pos hkind]
      exact agrees_decorated hvalid' _ _
    · rw [if_neg hkind, if_neg hkind]
      exact agrees_pure hvalid' _
  | _ =>
    rw [Parser.intervalTail]
    · refine (agrees_bound h).bind fun inf c₁ h₁ _ => ?_
      refine (agrees_expect h₁ (by simp) _).bind fun _ c₂ h₂ _ => ?_
      refine (agrees_bound h₂).bind fun sup c₃ h₃ _ => ?_
      refine (agrees_expect h₃ (by simp) _).bind fun _ c₄ h₄ _ => ?_
      simp only []
      cases Interval.ofBounds inf sup none with
      | error e => exact .error
      | ok interval => exact (agrees_decoration h₄).map _
    · simp [hrest]

theorem agrees_literal (h : c.Valid) : Agrees c (literal c) (Parser.literal c.rest) := by
  have hfail := agrees_fail (α := Literal) h .literal
  obtain ⟨⟨t, l⟩, ts, hrest, hpeek, hadvance⟩ := h.look
  rw [literal, run_bind hpeek]
  rw [hrest] at hfail ⊢
  cases t with
  | integer text => exact agrees_take h hrest (by simp) _
  | float text => exact agrees_take h hrest (by simp) _
  | infinity text => exact agrees_take h hrest (by simp) _
  | string text => exact agrees_take h hrest (by simp) _
  | boolean value => exact agrees_take h hrest (by simp) _
  | overlap state => exact agrees_take h hrest (by simp) _
  | punct p =>
    cases p with
    | openBracket =>
      obtain ⟨hpass, hvalid, rfl⟩ := hadvance (by simp)
      have haccept : accept (.punct .openBracket) c = .ok (true, c.next) := by
        rw [accept, run_bind hpeek, if_pos rfl, take, run_bind hpass]
        rfl
      have hinterval : interval c = intervalTail l c.next := by
        rw [interval, run_bind hpeek, run_bind haccept]
        rfl
      have htail : Agrees c (interval c) (Parser.intervalTail l c.next.rest) := by
        rw [hinterval]
        exact (agrees_intervalTail hvalid l).trans rfl (Nat.le_succ _)
      exact htail.map _
    | _ => exact hfail
  | _ => exact hfail

theorem agrees_literals (h : c.Valid) : Agrees c (literals c) (Parser.literals c.rest) :=
  agrees_repeatWhile (fun _ => agrees_literal)
    (length_lt_of_sound Grammar.literal_sound fun _ _ => Grammar.IsLiteral.ne_nil) h

theorem agrees_operation (h : c.Valid) : Agrees c (operation c) (Parser.operation c.rest) := by
  have hfail := agrees_fail (α := String) h .operation
  obtain ⟨⟨t, l⟩, ts, hrest, hpeek, -⟩ := h.look
  rw [operation, run_bind hpeek]
  rw [hrest] at hfail ⊢
  cases t with
  | identifier name => exact agrees_take h hrest (by simp) _
  | infinity text =>
    simp only [Parser.operation]
    by_cases htext : text = "inf"
    · rw [if_pos htext, if_pos htext]
      exact agrees_take h hrest (by simp) _
    · rw [if_neg htext, if_neg htext]
      exact hfail
  | _ => exact hfail

theorem agrees_inputs (h : c.Valid) : Agrees c (inputs c) (Parser.inputs c.rest) := by
  obtain ⟨l, ts, hrest, hpeek, -⟩ := h.look
  have hnext : (Parser.peek c.rest).token = l.token := by
    rw [hrest]
    rfl
  rw [inputs, run_bind hpeek, Parser.inputs, hnext]
  by_cases hl : Parser.startsLiteral l.token
  · rw [if_pos hl, if_pos hl]
    exact agrees_literals h
  · rw [if_neg hl, if_neg hl]
    exact agrees_pure h []

theorem agrees_tightest (h : c.Valid) : Agrees c (tightest c) (Parser.tightest c.rest) := by
  refine agrees_optional (by simp) (fun _ _ => rfl) (fun ts hts => ?_) (fun c h => ?_) h
  · unfold Parser.tightest
    split
    · exact absurd rfl (hts _ _)
    · rfl
  · exact (agrees_literals h).map some

theorem agrees_accurate (h : c.Valid) : Agrees c (accurate c) (Parser.accurate c.rest) := by
  refine agrees_optional (by simp) (fun _ _ => rfl) (fun ts hts => ?_) (fun c h => ?_) h
  · unfold Parser.accurate
    split
    · exact absurd rfl (hts _ _)
    · rfl
  · exact (agrees_expect h (by simp) _).bind fun _ _ hvalid _ => (agrees_literals hvalid).map some

theorem agrees_test (h : c.Valid) : Agrees c (test c) (Parser.test c.rest) := by
  obtain ⟨cs, c₁, hrun, hcomments, htokens, hle, h₁⟩ := run_comments h
  obtain ⟨l, ts, hrest, hpeek, -⟩ := h₁.look
  rw [test, run_bind hrun, run_bind hpeek, Parser.test, hcomments]
  refine Agrees.trans ?_ htokens hle
  refine (agrees_operation h₁).bind fun operation c₂ h₂ _ => ?_
  refine (agrees_inputs h₂).bind fun inputs c₃ h₃ _ => ?_
  refine (agrees_tightest h₃).bind fun tightest c₄ h₄ _ => ?_
  refine (agrees_accurate h₄).bind fun accurate c₅ h₅ _ => ?_
  have hlocation : (Parser.peek c₁.rest).location = l.location := by
    rw [hrest]
    rfl
  simp only [hlocation]
  -- The outputs are there behind the first check, so that the second one can not fail.
  cases hparts : Outputs.ofParts? tightest accurate with
  | none =>
    obtain ⟨rfl, rfl⟩ : tightest = none ∧ accurate = none := by
      cases tightest <;> cases accurate <;> simp_all [Outputs.ofParts?]
    exact agrees_fail h₅ _
  | some outputs =>
    have hthere : (tightest.isNone && accurate.isNone) = false := by
      cases tightest <;> cases accurate <;> simp_all [Outputs.ofParts?]
    rw [hthere]
    refine (agrees_expect h₅ (by simp) _).bind fun _ c₆ h₆ _ => ?_
    simp only [Test.ofParts, hparts]
    exact agrees_pure h₆ _

theorem identifier_cases (h : c.Valid) :
    (∃ part l ts, c.rest = ⟨.identifier part, l⟩ :: ts ∧ identifier c = .ok (part, c.next) ∧
      c.next.Valid ∧ c.next.rest = ts) ∨
    (∃ e, (∀ part l ts, c.rest ≠ ⟨.identifier part, l⟩ :: ts) ∧
      identifier c = .error (.fault e) ∧
        ∀ α, Parser.fail (α := α) .identifier c.rest = .error e) := by
  obtain ⟨⟨t, l⟩, ts, hrest, hpeek, hadvance⟩ := h.look
  have hfail : fail (α := String) .identifier c =
      .error (.fault (.unexpected .identifier t, l)) := by
    rw [fail, run_bind hpeek, failWith, run_bind hpeek]
    rfl
  rw [identifier, run_bind hpeek, hrest]
  cases t with
  | identifier part =>
    obtain ⟨hpass, hvalid, hnext⟩ := hadvance (by simp)
    exact .inl ⟨part, l, ts, rfl, run_bind hpass, hvalid, hnext⟩
  | _ => exact .inr ⟨_, by simp, hfail, fun _ => rfl⟩

theorem agrees_nameTail (h : c.Valid) : Agrees c (nameTail c) (Parser.nameTail c.rest) := by
  refine agrees_rounds Parser.nameTail (fun c h => ?_) h
  obtain ⟨l, ts, hrest, haccept, hvalid, rfl⟩ | ⟨l, ts, hrest, hl, haccept⟩ :=
    accept_cases h (.punct .dot) (by simp)
  · obtain ⟨part, l', ts, hrest', hidentifier, hvalid', hnext⟩ | ⟨e, hother, hidentifier, hfail⟩ :=
      identifier_cases hvalid
    · refine .next (a := part) (d := c.next.next) ?_ rfl ?_ hvalid' ?_
      · rw [run_bind haccept]
        exact run_bind hidentifier
      · exact (Nat.lt_succ_self _).trans (Nat.lt_succ_self _)
      · rw [hrest, hrest', hnext, Parser.nameTail]
        rfl
    · refine .fail (e := e) ?_ ?_
      · rw [run_bind haccept]
        exact run_bind_error hidentifier
      · rw [hrest, Parser.nameTail]
        · exact hfail _
        · exact hother
  · refine .stop ?_ ?_
    · rw [run_bind haccept]
      rfl
    · rw [hrest, Parser.nameTail]
      intro l' ts' heq
      exact hl (congrArg Lexeme.token (List.cons.inj heq).1)

theorem agrees_name (h : c.Valid) : Agrees c (name c) (Parser.name c.rest) := by
  obtain ⟨part, l, ts, hrest, hidentifier, hvalid, rfl⟩ | ⟨e, hother, hidentifier, hfail⟩ :=
    identifier_cases h
  · rw [name, run_bind hidentifier, hrest]
    exact ((agrees_nameTail hvalid).map (part :: ·)).trans rfl (Nat.le_succ _)
  · have hname : Parser.name c.rest = .error e := by
      unfold Parser.name
      split
      · rename_i heq
        exact absurd heq (hother _ _ _)
      · exact hfail _
    rw [name, run_bind_error hidentifier, hname]
    exact .error

theorem agrees_testcase (h : c.Valid) (cs : List Comment) :
    Agrees c (testcase cs c) (Parser.testcase cs c.rest) := by
  obtain ⟨l, ts, hrest, hpeek, -⟩ := h.look
  have hlocation : (Parser.peek c.rest).location = l.location := by
    rw [hrest]
    rfl
  rw [testcase, run_bind hpeek, Parser.testcase, hlocation]
  refine (agrees_expect h (by simp) _).bind fun _ c₁ h₁ _ => ?_
  refine (agrees_name h₁).bind fun name c₂ h₂ _ => ?_
  refine (agrees_expect h₂ (by simp) _).bind fun _ c₃ h₃ _ => ?_
  refine (agrees_repeatWhile (fun _ => agrees_test)
    (length_lt_of_sound Grammar.test_sound fun _ _ => Grammar.IsTest.ne_nil) h₃).bind
      fun tests c₄ h₄ _ => ?_
  refine (agrees_expect h₄ (by simp) _).bind fun _ c₅ h₅ _ => ?_
  exact agrees_pure h₅ _

theorem agrees_commentedTestcase (h : c.Valid) :
    Agrees c (commentedTestcase c) (Parser.commentedTestcase c.rest) := by
  obtain ⟨cs, c₁, hrun, hcomments, htokens, hle, h₁⟩ := run_comments h
  rw [commentedTestcase, run_bind hrun, Parser.commentedTestcase, hcomments]
  exact (agrees_testcase h₁ cs).trans htokens hle

/-- **The document.** -/
theorem agrees_document (h : c.Valid) (fileName : String) :
    Agrees c (document fileName c) (Parser.document fileName c.rest) := by
  obtain ⟨leading, c₁, hrun, hcomments, htokens, hle, h₁⟩ := run_comments h
  rw [document, run_bind hrun, Parser.document, hcomments]
  refine Agrees.trans ?_ htokens hle
  refine (agrees_testcase h₁ _).bind fun first c₂ h₂ _ => ?_
  have hothers : Parser.testcases c₂.rest =
      again (· ≠ .endOfFile) Parser.commentedTestcase c₂.rest := by
    rw [Parser.testcases, again]
    by_cases hend : (Parser.peek c₂.rest).token = .endOfFile
    · simp [hend]
    · simp [hend]
  simp only [hothers]
  refine (agrees_again (fun _ => agrees_commentedTestcase) (length_lt_of_sound
    Grammar.commentedTestcase_sound fun _ _ => Grammar.IsCommentedTestcase.ne_nil) h₂).map _

/-! ## The parser -/

/-- A cursor at an end of file is at the last token. -/
theorem Valid.eq_last (h : c.Valid) (hend : (Parser.peek c.rest).token = .endOfFile) :
    c.position + 1 = c.tokens.length := by
  obtain ⟨body, e, htokens, hbody⟩ := h.ended
  have hlength : c.tokens.length = body.length + 1 := by simp [htokens]
  have hinRange := h.inRange
  by_contra hne
  have hposition : c.position < body.length := by omega
  have hmem : Parser.peek c.rest ∈ body := by
    rw [rest, htokens, List.drop_append_of_le_length hposition.le]
    cases hdrop : body.drop c.position with
    | nil =>
      rw [List.drop_eq_nil_iff] at hdrop
      omega
    | cons l ts => exact List.mem_of_mem_drop (hdrop ▸ List.mem_cons_self)
  exact hbody _ hmem hend

/-- The parser with an index ends as the parser does: with the same document, when it has come to its
last token, or with the same fault. -/
inductive Concludes (tokens : List Lexeme) :
    Except Stop (Document × Cursor) → Except ParseError Document → Prop where
  | ok {d : Document} {c : Cursor} (same : c.tokens = tokens) (last : c.position + 1 = tokens.length) :
      Concludes tokens (.ok (d, c)) (.ok d)
  | error {e : ParseError} :
      Concludes tokens (.error (.fault (e.fault, e.location))) (.error e)

/-- **The parser with an index** never looks or steps outside of its tokens, none of its loops makes
a round for nothing, and no case arises that has been excluded before. -/
theorem parseDocument_untrapped (source fileName : String) :
    (start source).Valid ∧ (∀ trap, document fileName (start source) ≠ .error (.trap trap)) ∧
      Concludes (tokenize source) (document fileName (start source))
        (parseDocument source fileName) := by
  have hvalid := valid_start source
  have hagrees := agrees_document hvalid fileName
  have hrest : (start source).rest = tokenize source := rfl
  rw [hrest] at hagrees
  refine ⟨hvalid, ?_⟩
  rw [parseDocument, parseTokens]
  generalize hr : document fileName (start source) = r at hagrees
  generalize hs : Parser.document fileName (tokenize source) = s at hagrees
  cases hagrees with
  | @ok d c htokens hle hvalid' =>
    obtain ⟨us, -, -, hend, -⟩ := Grammar.document_sound hs
    have hlast := hvalid'.eq_last hend
    rw [htokens] at hlast
    exact ⟨by simp, .ok htokens hlast⟩
  | @error e => exact ⟨by simp, .error (e := ⟨e.1, e.2, fileName⟩)⟩

/-- Without an end of file, the parser would look behind its last token. -/
example : document "a.itl" ⟨[⟨.testcase, .start⟩], 0⟩ = .error (.trap .outOfRange) := by
  cbv

end IntervalSuite.Itl.Cursor
