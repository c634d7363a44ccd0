import EnsembleCompiler.Proofs.Target.Brackets
import EnsembleCompiler.Proofs.Target.Reading

/-!
# A logic for the nesting that parsers follow

`Keeps e n N p A`: in front of a lexeme that satisfies `N`, the parser `p` passes over a bracketed
stretch of lexemes, which is not empty if the value satisfies `A`; and it asks for more recursion
than it is given only where `n` openers and links are pending. Each primitive has a rule. Between
brackets, `Closes` takes the place of `Keeps` up to the closer.
-/

namespace EnsembleCompiler.Target

open Target.Parser

variable {α β κ : Type}

/-- The turn of a loop is followed by another turn. -/
def Turn.GoesOn : Turn κ α → Prop
  | .again _ => True
  | .leave _ => False

/-- What an answer says about the lexemes `ls` in front of which the parser stood. -/
def Reply.Keeps (e : Extent) (n : Nat) (A : α → Prop) (ls : List Lexeme) : Reply α → Prop
  | .done a d => ∃ ms, ls = ms ++ d.rest ∧ Bracketed e ms ∧ (A a → ms ≠ [])
  | .failed _ cause => cause = .exhausted → Pending e n ls

/-- What an answer says about the lexemes `ls` behind an opener. -/
def Reply.Closes (e : Extent) (n : Nat) (b : Bracket) (ls : List Lexeme) : Reply α → Prop
  | .done _ d => ∃ inner outer, ls = inner ++ .symbol b.closer :: (outer ++ d.rest) ∧
      Bracketed .series inner ∧ Bracketed e outer
  | .failed _ cause => cause = .exhausted → Pending .series (n - 1) ls ∨
      ∃ inner rest, ls = inner ++ .symbol b.closer :: rest ∧ Bracketed .series inner ∧
        Pending e n rest

/-- The parser passes over bracketed stretches and is exhausted only where `n` are pending. -/
def Keeps (e : Extent) (n : Nat) (N : Option Lexeme → Prop) (p : Parser α) (A : α → Prop) : Prop :=
  ∀ c, N c.rest[0]? → (p.run c).Keeps e n A c.rest

/-- Behind an opener, the parser passes over its closer and keeps to the nesting before and after
it. -/
def Closes (e : Extent) (n : Nat) (b : Bracket) (N : Option Lexeme → Prop) (p : Parser α) : Prop :=
  ∀ c, N c.rest[0]? → (p.run c).Closes e n b c.rest

/-- Behind the lexeme `x`, the parser keeps to the nesting of `x` and what follows it. -/
def Behind (e : Extent) (n : Nat) (x : Lexeme) (p : Parser α) : Prop :=
  ∀ m ls, (p.run ⟨m, ls⟩).Keeps e n Always (x :: ls)

section Rules

variable {e : Extent} {n : Nat} {b : Bracket} {x : Lexeme} {N : Option Lexeme → Prop}
  {A : α → Prop} {p : Parser α} {f : α → Parser β} {B : β → Prop}

/-! ### Answers -/

/-- What is said about the lexemes behind a bracketed stretch, said in front of it. -/
theorem Reply.Keeps.past {r : Reply β} {ls ms : List Lexeme} {C : β → Prop}
    (hls : Bracketed e ls) (h : r.Keeps e n C ms) (hB : ∀ a, B a → C a ∨ ls ≠ []) :
    r.Keeps e n B (ls ++ ms) := by
  cases r with
  | done a d =>
    obtain ⟨passed, rfl, hpassed, hread⟩ := h
    refine ⟨ls ++ passed, by simp, hls.append hpassed, fun ha => ?_⟩
    obtain hC | hne := hB a ha
    · simp [hread hC]
    · simp [hne]
  | failed q cause => exact fun hcause => .past hls (h hcause)

theorem Reply.Closes.past {r : Reply β} {ls ms : List Lexeme} (hls : Bracketed .series ls)
    (h : r.Closes e n b ms) : r.Closes e n b (ls ++ ms) := by
  cases r with
  | done a d =>
    obtain ⟨inner, outer, rfl, hinner, houter⟩ := h
    exact ⟨ls ++ inner, outer, by simp, hls.append hinner, houter⟩
  | failed q cause =>
    intro hcause
    obtain hpending | ⟨inner, rest, rfl, hinner, hpending⟩ := h hcause
    · exact .inl (.past hls hpending)
    · exact .inr ⟨ls ++ inner, rest, by simp, hls.append hinner, hpending⟩

/-- Behind an opener and up to its closer lies a group. -/
theorem Reply.Closes.keeps {r : Reply β} {ls : List Lexeme} (h : r.Closes e n b ls) :
    r.Keeps e n B (.symbol b.opener :: ls) := by
  cases r with
  | done a d =>
    obtain ⟨inner, outer, rfl, hinner, houter⟩ := h
    exact ⟨.symbol b.opener :: inner ++ [.symbol b.closer] ++ outer, by simp,
      (Bracketed.group hinner).append houter, by simp⟩
  | failed q cause =>
    intro hcause
    obtain hpending | ⟨inner, rest, rfl, hinner, hpending⟩ := h hcause
    · cases n with
      | zero => exact .start
      | succ n => exact .opener hpending
    · have hpast := Pending.past (Bracketed.group (e := e) (b := b) hinner) hpending
      simpa using hpast

/-! ### Forms of the judgments -/

theorem Keeps.weaken {N' : Option Lexeme → Prop} {A' : α → Prop} (h : Keeps e n N p A)
    (hN : ∀ x, N' x → N x) (hA : ∀ a, A' a → A a) : Keeps e n N' p A' := by
  intro c hc
  have hr := h c (hN _ hc)
  cases hrun : p.run c with
  | done a d =>
    rw [hrun] at hr
    obtain ⟨ms, hms, hbracketed, hread⟩ := hr
    exact ⟨ms, hms, hbracketed, fun ha => hread (hA a ha)⟩
  | failed q cause =>
    rw [hrun] at hr
    exact hr

/-- A parser that reads in front of any lexeme also does so in front of a certain one. -/
theorem Keeps.any (h : Keeps e n Always p Always) : Keeps e n N p A :=
  h.weaken (fun _ _ => trivial) fun _ _ => trivial

theorem Keeps.loosen (h : Keeps e n N p A) : Keeps .series n N p A := by
  intro c hc
  have hr := h c hc
  cases hrun : p.run c with
  | done a d =>
    rw [hrun] at hr
    obtain ⟨ms, hms, hbracketed, hread⟩ := hr
    exact ⟨ms, hms, hbracketed.loosen, hread⟩
  | failed q cause =>
    rw [hrun] at hr
    exact fun hcause => (hr hcause).loosen

theorem Behind.quiet (hx : x.role.Quiet e) (h : Keeps e n Always p Never) : Behind e n x p :=
  fun m ls => .past (.lexeme hx) (h ⟨m, ls⟩ trivial) fun _ _ => .inr (by simp)

/-- A link gives one more to what is pending behind it. -/
theorem Behind.link (hx : x.role = .link) (h : Keeps .phrase (n - 1) Always p Never) :
    Behind .phrase n x p := by
  intro m ls
  have hquiet : x.role.Quiet .phrase := by rw [hx]; trivial
  have hr := h ⟨m, ls⟩ trivial
  cases hrun : p.run ⟨m, ls⟩ with
  | done a d =>
    rw [hrun] at hr
    obtain ⟨ms, rfl, hbracketed, -⟩ := hr
    exact ⟨x :: ms, rfl, .cons hquiet hbracketed, by simp⟩
  | failed q cause =>
    rw [hrun] at hr
    intro hcause
    cases n with
    | zero => exact .start
    | succ n => exact .link hx (hr hcause)

theorem Behind.opener (b : Bracket) (h : Closes e n b Always p) :
    Behind e n (.symbol b.opener) p :=
  fun m ls => (h ⟨m, ls⟩ trivial).keeps

/-! ### Rules for `Keeps` -/

theorem keeps_pure {a : α} (h : ¬ A a) : Keeps e n N (pure a) A :=
  fun _ _ => ⟨[], rfl, .nil, fun ha => absurd ha h⟩

theorem keeps_fail {cause : SyntaxCause} (h : cause ≠ .exhausted) :
    Keeps e n N (fail cause : Parser α) A :=
  fun _ _ hcause => absurd hcause h

theorem keeps_ite {P : Prop} [Decidable P] {q : Parser α} (hyes : P → Keeps e n N p A)
    (hno : Keeps e n N q A) : Keeps e n N (if P then p else q) A := by
  split
  · rename_i h
    exact hyes h
  · exact hno

theorem keeps_fail_bind {cause : SyntaxCause} (h : cause ≠ .exhausted) :
    Keeps e n N (fail cause >>= f) B :=
  fun _ _ hcause => absurd hcause h

theorem Keeps.bind (hp : Keeps e n N p Never) (hf : ∀ a, Keeps e n Always (f a) B) :
    Keeps e n N (p >>= f) B := by
  intro c hc
  have hr := hp c hc
  rw [run_bind]
  cases hrun : p.run c with
  | done a d =>
    rw [hrun] at hr
    obtain ⟨ms, hms, hbracketed, -⟩ := hr
    rw [hms]
    exact .past hbracketed (hf a d trivial) fun _ => .inl
  | failed q cause =>
    rw [hrun] at hr
    exact hr

/-- Once something has been read, the rest need not read. -/
theorem Keeps.read (hp : Keeps e n N p Always) (hf : ∀ a, Keeps e n Always (f a) Never) :
    Keeps e n N (p >>= f) B := by
  intro c hc
  have hr := hp c hc
  rw [run_bind]
  cases hrun : p.run c with
  | done a d =>
    rw [hrun] at hr
    obtain ⟨ms, hms, hbracketed, hread⟩ := hr
    rw [hms]
    exact .past hbracketed (hf a d trivial) fun _ _ => .inr (hread trivial)
  | failed q cause =>
    rw [hrun] at hr
    exact hr

theorem Keeps.map {g : α → β} (hp : Keeps e n N p Always) : Keeps e n N (g <$> p) B :=
  Keeps.read hp fun _ => keeps_pure id

theorem keeps_look {f : Option Lexeme × Option Lexeme → Parser β}
    (h : ∀ x next, N x → Keeps e n (· = x) (f (x, next)) B) : Keeps e n N (look >>= f) B :=
  fun c hc => h _ _ hc c rfl

theorem keeps_peek {f : Option Lexeme → Parser β}
    (h : ∀ x, N x → Keeps e n (· = x) (f x) B) : Keeps e n N (peek >>= f) B :=
  fun c hc => h _ hc c rfl

theorem keeps_position {f : Nat → Parser β} (h : ∀ m, Keeps e n N (f m) B) :
    Keeps e n N (position >>= f) B :=
  fun c hc => h _ c hc

section Places

variable {σ : Type} [Places σ] {f : σ → Parser β}

theorem keeps_currentPlace (h : ∀ s, Keeps e n N (f s) B) : Keeps e n N (currentPlace >>= f) B :=
  fun c hc => h _ c hc

theorem keeps_previousPlace (h : ∀ s, Keeps e n N (f s) B) : Keeps e n N (previousPlace >>= f) B :=
  fun c hc => h _ c hc

end Places

theorem keeps_at {f : Bool → Parser β} (hyes : Keeps e n (· = some x) (f true) B)
    (hno : Keeps e n N (f false) B) : Keeps e n N (at? x >>= f) B := by
  intro c hc
  by_cases hx : c.rest[0]? = some x
  · have hrun : (at? x >>= f).run c = (f (decide (c.rest[0]? = some x))).run c := rfl
    rw [hrun, decide_eq_true hx]
    exact hyes c hx
  · have hrun : (at? x >>= f).run c = (f (decide (c.rest[0]? = some x))).run c := rfl
    rw [hrun, decide_eq_false hx]
    exact hno c hc

theorem keeps_if_at {p q : Parser β} (hyes : Keeps e n (· = some x) p B)
    (hno : Keeps e n N q B) : Keeps e n N (at? x >>= fun found => if found = true then p else q) B :=
  keeps_at hyes hno

/-- A parser that first passes over the lexeme `x` and then is `p`. -/
theorem Behind.keeps {q : Parser β} {r : Parser β} (h : Behind e n x r)
    (hrun : ∀ m ls, q.run ⟨m, x :: ls⟩ = r.run ⟨m + 1, ls⟩) : Keeps e n (· = some x) q B := by
  rintro ⟨m, ls⟩ hc
  cases ls with
  | nil => simp at hc
  | cons y ls =>
    obtain rfl : y = x := by simpa using hc
    have hr := h (m + 1) ls
    rw [hrun]
    cases hdone : r.run ⟨m + 1, ls⟩ with
    | done a d =>
      rw [hdone] at hr
      obtain ⟨ms, hms, hbracketed, hread⟩ := hr
      exact ⟨ms, hms, hbracketed, fun _ => hread trivial⟩
    | failed q cause =>
      rw [hdone] at hr
      exact hr

/-- The rule for a parser that passes over `x` if it comes next, and is `q` otherwise. -/
theorem keeps_either {p q r : Parser β} (hyes : Behind e n x r)
    (hread : ∀ m ls, p.run ⟨m, x :: ls⟩ = r.run ⟨m + 1, ls⟩) (hno : Keeps e n N q B)
    (hother : ∀ c, c.rest[0]? ≠ some x → p.run c = q.run c) : Keeps e n N p B := by
  intro c hc
  by_cases hx : c.rest[0]? = some x
  · exact hyes.keeps hread c hx
  · rw [hother c hx]
    exact hno c hc

theorem keeps_shift {f : Unit → Parser β} (hN : ∀ y, N y → ∃ x, y = some x ∧ Behind e n x (f ())) :
    Keeps e n N (shift >>= f) B := by
  intro c hc
  obtain ⟨x, hx, h⟩ := hN _ hc
  exact h.keeps (fun _ _ => rfl) c hx

theorem keeps_accept {f : Bool → Parser β} (hyes : Behind e n x (f true))
    (hno : Keeps e n N (f false) B) : Keeps e n N (accept x >>= f) B := by
  refine keeps_either hyes (fun m ls => ?_) hno fun c hc => ?_
  · rw [run_bind, run_accept_cons]
  · rw [run_bind, run_accept_other hc]

theorem keeps_if_accept {p q : Parser β} (hyes : Behind e n x p) (hno : Keeps e n N q B) :
    Keeps e n N (accept x >>= fun found => if found = true then p else q) B :=
  keeps_accept hyes hno

theorem keeps_symbol {s : Symbol} {f : Unit → Parser β} (h : Behind e n (.symbol s) (f ())) :
    Keeps e n N (symbol s >>= f) B := by
  refine keeps_either (q := fail (.expected (.symbol s))) h (fun m ls => ?_)
    (keeps_fail (by simp)) fun c hc => ?_
  · rw [run_bind, run_symbol_cons]
  · rw [run_bind, run_symbol_other hc]
    rfl

theorem keeps_keyword {k : Keyword} {f : Unit → Parser β} (h : Behind e n (.keyword k) (f ())) :
    Keeps e n N (keyword k >>= f) B := by
  refine keeps_either (q := fail (.expected (.keyword k))) h (fun m ls => ?_)
    (keeps_fail (by simp)) fun c hc => ?_
  · rw [run_bind, keyword, run_bind, run_accept_cons]
    rfl
  · rw [run_bind, keyword, run_bind, run_accept_other hc]
    rfl

theorem keeps_shift_some {f : Unit → Parser β} (h : Behind e n x (f ())) :
    Keeps e n (· = some x) (shift >>= f) B :=
  keeps_shift fun _ hy => ⟨x, hy, h⟩

theorem keeps_advance {σ : Type} [Places σ] {f : σ → Parser β} (h : ∀ s, Behind e n x (f s)) :
    Keeps e n (· = some x) (advance >>= f) B := by
  rw [advance, bind_assoc]
  refine keeps_currentPlace fun s => ?_
  rw [bind_assoc]
  exact keeps_shift_some (h s)

theorem keeps_shiftOver {C : Unit → Prop} (hx : x.role.Quiet e) :
    Keeps e n (· = some x) shift C :=
  Behind.keeps (r := pure ()) (.quiet hx (keeps_pure id)) fun _ _ => rfl

/-- A lexeme that may be missing. -/
theorem keeps_optional (hx : x.role.Quiet e) : Keeps e n N (accept x) Never := by
  refine keeps_either (r := pure true) (q := pure false) (.quiet hx (keeps_pure id))
    run_accept_cons (keeps_pure id) fun c hc => ?_
  rw [run_accept_other hc]
  rfl

/-- A part of a construct that is there if a certain lexeme is. -/
theorem keeps_optionalPart {part : Parser α} {a : α} (hx : x.role.Quiet e)
    (hpart : Keeps e n Always part Always) (hf : ∀ v, Keeps e n Always (f v) Never) :
    Keeps e n N (accept x >>= fun found => if found = true then part >>= f else pure a >>= f)
      Never :=
  keeps_if_accept (.quiet hx (hpart.read hf))
    ((hf a).weaken (fun _ _ => trivial) fun _ => id)

theorem keeps_located {σ : Type} [Places σ] {p : Parser (σ → β)} (h : Keeps e n N p Always) :
    Keeps e n N (located p) B :=
  keeps_currentPlace fun _ => h.read fun _ => keeps_previousPlace fun _ => keeps_pure id

/-- A loop keeps to the nesting if each of its turns does and reads before another turn. -/
theorem keeps_loop {turn : κ → Parser (Turn κ β)}
    (h : ∀ s, Keeps e n Always (turn s) Turn.GoesOn) (s : κ) :
    Keeps e n N (loop turn s) Never := by
  rintro c -
  show (loopRun turn s c).Keeps e n Never c.rest
  fun_induction loopRun turn s c with
  | case1 s c q cause hrun =>
    have hr := h s c trivial
    rw [hrun] at hr
    exact hr
  | case2 s c a d hrun =>
    have hr := h s c trivial
    rw [hrun] at hr
    obtain ⟨ms, hms, hbracketed, -⟩ := hr
    exact ⟨ms, hms, hbracketed, False.elim⟩
  | case3 s c s' d hrun hlt ih =>
    have hr := h s c trivial
    rw [hrun] at hr
    obtain ⟨ms, hms, hbracketed, -⟩ := hr
    rw [hms]
    exact .past hbracketed ih fun _ => .inl
  | case4 s c s' d hrun hlt =>
    -- the turn has read a lexeme, so it has moved on
    have hr := h s c trivial
    have hafter := (turn s).after c
    rw [hrun] at hr hafter
    obtain ⟨ms, hms, -, hread⟩ := hr
    have hlength := Cursor.Reaches.length_eq hafter
    have hpos : 0 < ms.length := List.length_pos_iff.mpr (hread trivial)
    rw [hms, List.length_append] at hlength
    omega

/-! ### Rules for `Closes` -/

theorem Keeps.closes {q : Parser β} {f : β → Parser α}
    (hq : Keeps .series (n - 1) N q Never) (hf : ∀ a, Closes e n b Always (f a)) :
    Closes e n b N (q >>= f) := by
  intro c hc
  have hr := hq c hc
  rw [run_bind]
  cases hrun : q.run c with
  | done a d =>
    rw [hrun] at hr
    obtain ⟨ms, hms, hbracketed, -⟩ := hr
    rw [hms]
    exact .past hbracketed (hf a d trivial)
  | failed q cause =>
    rw [hrun] at hr
    exact fun hcause => .inl (hr hcause)

theorem closes_fail {cause : SyntaxCause} (h : cause ≠ .exhausted) :
    Closes e n b N (fail cause : Parser α) :=
  fun _ _ hcause => absurd hcause h

theorem closes_fail_bind {f : β → Parser α} {cause : SyntaxCause} (h : cause ≠ .exhausted) :
    Closes e n b N (fail cause >>= f) :=
  fun _ _ hcause => absurd hcause h

theorem closes_peek {f : Option Lexeme → Parser β}
    (h : ∀ x, N x → Closes e n b (· = x) (f x)) : Closes e n b N (peek >>= f) :=
  fun c hc => h _ hc c rfl

/-- The rule for a parser that passes over the closer if it comes next, and is `q` otherwise. -/
theorem closes_either {p q r : Parser β} (hyes : Keeps e n Always r Never)
    (hread : ∀ m ls, p.run ⟨m, .symbol b.closer :: ls⟩ = r.run ⟨m + 1, ls⟩)
    (hno : Closes e n b N q)
    (hother : ∀ c, c.rest[0]? ≠ some (Lexeme.symbol b.closer) → p.run c = q.run c) :
    Closes e n b N p := by
  rintro ⟨m, ls⟩ hc
  by_cases hx : ls[0]? = some (Lexeme.symbol b.closer)
  · cases ls with
    | nil => simp at hx
    | cons y ls =>
      obtain rfl : y = .symbol b.closer := by simpa using hx
      have hr := hyes ⟨m + 1, ls⟩ trivial
      rw [hread]
      cases hrun : r.run ⟨m + 1, ls⟩ with
      | done a d =>
        rw [hrun] at hr
        obtain ⟨ms, hms, hbracketed, -⟩ := hr
        exact ⟨[], ms, congrArg _ hms, .nil, hbracketed⟩
      | failed q cause =>
        rw [hrun] at hr
        exact fun hcause => .inr ⟨[], ls, rfl, .nil, hr hcause⟩
  · rw [hother ⟨m, ls⟩ hx]
    exact hno _ hc

theorem closes_accept (b : Bracket) {f : Bool → Parser β} (hyes : Keeps e n Always (f true) Never)
    (hno : Closes e n b N (f false)) : Closes e n b N (accept (.symbol b.closer) >>= f) := by
  refine closes_either hyes (fun m ls => ?_) hno fun c hc => ?_
  · rw [run_bind, run_accept_cons]
  · rw [run_bind, run_accept_other hc]

theorem closes_if_accept (b : Bracket) {p q : Parser β} (hyes : Keeps e n Always p Never)
    (hno : Closes e n b N q) :
    Closes e n b N (accept (.symbol b.closer) >>= fun found => if found = true then p else q) :=
  closes_accept b hyes hno

theorem closes_symbol (b : Bracket) {f : Unit → Parser β} (h : Keeps e n Always (f ()) Never) :
    Closes e n b N (symbol b.closer >>= f) := by
  refine closes_either (q := fail (.expected (.symbol b.closer))) h (fun m ls => ?_)
    (closes_fail (by simp)) fun c hc => ?_
  · rw [run_bind, run_symbol_cons]
  · rw [run_bind, run_symbol_other hc]
    rfl

end Rules

end EnsembleCompiler.Target
