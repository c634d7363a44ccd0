import EnsembleCompiler.Target.Cause

/-!
# Parsers over lexemes

A parser reads lexemes from the front of a list. What it may do is part of its type: it reads
what it passes over and nothing else, and its answer depends on no lexeme further than one past
the place at which it stops. So the first error of a text is decided by the text up to it.
-/

namespace EnsembleCompiler.Target

/-- A place among lexemes: how many have been read, and those that follow. -/
structure Cursor where
  position : Nat
  rest : List Lexeme

namespace Cursor

/-- The cursor `d` is `c` after some of its lexemes have been read. -/
structure Reaches (c d : Cursor) : Prop where
  le : c.position ≤ d.position
  inside : d.position ≤ c.position + c.rest.length
  rest_eq : d.rest = c.rest.drop (d.position - c.position)

theorem Reaches.refl (c : Cursor) : c.Reaches c := ⟨by omega, by omega, by simp⟩

theorem Reaches.trans {c d e : Cursor} (h : c.Reaches d) (k : d.Reaches e) : c.Reaches e := by
  have hd : d.rest.length = c.rest.length - (d.position - c.position) := by simp [h.rest_eq]
  have hle := h.le
  have hin := h.inside
  have kle := k.le
  have kin := k.inside
  refine ⟨by omega, by omega, ?_⟩
  rw [k.rest_eq, h.rest_eq, List.drop_drop]
  congr 1
  omega

theorem Reaches.length_eq {c d : Cursor} (h : c.Reaches d) :
    d.rest.length = c.rest.length - (d.position - c.position) := by
  simp [h.rest_eq]

end Cursor

/-- The answer of a parser: a value and the cursor after it, or the place of an error. -/
inductive Reply (α : Type) where
  | done (value : α) (next : Cursor)
  | failed (position : Nat) (cause : SyntaxCause)

namespace Reply

variable {α : Type}

/-- Where a parser stopped. -/
def position : Reply α → Nat
  | done _ next => next.position
  | failed p _ => p

/-- An answer without the lexemes that follow. -/
def verdict : Reply α → Except SyntaxCause α × Nat
  | done a next => (.ok a, next.position)
  | failed p e => (.error e, p)

/-- An answer lies in the lexemes that follow a cursor. -/
def After (c : Cursor) : Reply α → Prop
  | done _ next => c.Reaches next
  | failed p _ => c.position ≤ p ∧ p ≤ c.position + c.rest.length

theorem After.le {c : Cursor} {r : Reply α} (h : r.After c) : c.position ≤ r.position := by
  cases r with
  | done a d => exact Cursor.Reaches.le h
  | failed p e => exact h.1

theorem After.trans {c d : Cursor} {r : Reply α} (h : c.Reaches d) (k : r.After d) :
    r.After c := by
  cases r with
  | done a e => exact h.trans k
  | failed p e =>
    have hle := h.le
    have hin := h.inside
    have hlen := h.length_eq
    obtain ⟨k₁, k₂⟩ := k
    exact ⟨by omega, by omega⟩

theorem verdict_done {r : Reply α} {a : α} {n : Nat} (h : r.verdict = (.ok a, n)) :
    ∃ d : Cursor, r = .done a d ∧ d.position = n := by
  cases r with
  | done b d => simp_all [verdict]
  | failed p e => simp [verdict] at h

theorem verdict_failed {r : Reply α} {e : SyntaxCause} {n : Nat}
    (h : r.verdict = (.error e, n)) : r = .failed n e := by
  cases r with
  | done b d => simp [verdict] at h
  | failed p e => simp_all [verdict]

end Reply

/-- Two cursors show the same next `n` lexemes at the same place. -/
def Cursor.Agree (c d : Cursor) (n : Nat) : Prop :=
  c.position = d.position ∧ c.rest.take n = d.rest.take n

namespace Cursor

theorem Agree.mono {c d : Cursor} {m n : Nat} (h : c.Agree d n) (hmn : m ≤ n) : c.Agree d m := by
  refine ⟨h.1, ?_⟩
  have := congrArg (List.take m) h.2
  simpa [List.take_take, Nat.min_eq_left hmn] using this

theorem Agree.reach {c d c' d' : Cursor} {n : Nat} (h : c.Agree d n)
    (hc : c.Reaches c') (hd : d.Reaches d') (hp : c'.position = d'.position) :
    c'.Agree d' (n - (c'.position - c.position)) := by
  refine ⟨hp, ?_⟩
  have := congrArg (List.drop (c'.position - c.position)) h.2
  rw [hc.rest_eq, hd.rest_eq, List.take_drop, List.take_drop, ← hp, ← h.1]
  rcases Nat.le_total (c'.position - c.position) n with hle | hle
  · rwa [show c'.position - c.position + (n - (c'.position - c.position)) = n by omega]
  · simp [Nat.sub_eq_zero_of_le hle]

end Cursor

/-- A parser for values of type `α`. -/
structure Parser (α : Type) where
  run : Cursor → Reply α
  /-- It stops at a place that it has read up to. -/
  after : ∀ c, (run c).After c
  /-- It looks no further than one lexeme past that place. -/
  isLocal : ∀ c d, c.Agree d ((run c).position - c.position + 2) →
    (run d).verdict = (run c).verdict

/-- How a turn of a loop ends: with another turn, or with the value of the loop. -/
inductive Turn (σ α : Type) where
  | again (state : σ)
  | leave (value : α)

namespace Parser

variable {α β σ : Type}

/-- Reads nothing. -/
protected def pure (a : α) : Parser α where
  run c := .done a c
  after c := .refl c
  isLocal c d h := by simp [Reply.verdict, h.1]

/-- Reads nothing and fails. -/
def fail (cause : SyntaxCause) : Parser α where
  run c := .failed c.position cause
  after c := ⟨Nat.le_refl _, Nat.le_add_right _ _⟩
  isLocal c d h := by simp [Reply.verdict, h.1]

/-- One parser after another. -/
protected def bind (p : Parser α) (f : α → Parser β) : Parser β where
  run c :=
    match p.run c with
    | .done a d => (f a).run d
    | .failed q e => .failed q e
  after c := by
    have hp := p.after c
    cases hrun : p.run c with
    | done a d =>
      rw [hrun] at hp
      exact Reply.After.trans hp ((f a).after d)
    | failed q e => rwa [hrun] at hp
  isLocal c d h := by
    have hp := p.after c
    have hq := p.after d
    cases hrun : p.run c with
    | failed q e =>
      rw [hrun] at h hp
      have hv := p.isLocal c d (by rw [hrun]; exact h)
      rw [hrun] at hv
      have := Reply.verdict_failed hv
      simp [this, Reply.verdict]
    | done a c' =>
      rw [hrun] at h hp
      dsimp only at h
      have hle := ((f a).after c').le
      have hcc : c.position ≤ c'.position := Cursor.Reaches.le hp
      have hv := p.isLocal c d (by
        rw [hrun]
        exact h.mono (show c'.position - c.position + 2 ≤ _ by omega))
      rw [hrun] at hv
      obtain ⟨d', hd', hpos⟩ := Reply.verdict_done hv
      rw [hd'] at hq ⊢
      dsimp only
      refine (f a).isLocal c' d' ?_
      exact (h.reach hp hq hpos.symm).mono (by omega)

instance : Monad Parser where
  pure := Parser.pure
  bind := Parser.bind

theorem run_bind (p : Parser α) (f : α → Parser β) (c : Cursor) :
    (p >>= f).run c = match p.run c with
      | .done a d => (f a).run d
      | .failed q cause => .failed q cause := rfl

theorem ext {p q : Parser α} (h : ∀ c, p.run c = q.run c) : p = q := by
  cases p
  cases q
  congr
  exact funext h

theorem bind_assoc {γ : Type} (p : Parser α) (f : α → Parser β) (g : β → Parser γ) :
    p >>= f >>= g = p >>= fun a => f a >>= g := by
  refine Parser.ext fun c => ?_
  simp only [run_bind]
  cases p.run c <;> rfl

/-- The next two lexemes. -/
def look : Parser (Option Lexeme × Option Lexeme) where
  run c := .done (c.rest[0]?, c.rest[1]?) c
  after c := .refl c
  isLocal c d h := by
    have h0 := congrArg (·[0]?) h.2
    have h1 := congrArg (·[1]?) h.2
    simp [Reply.position] at h0 h1
    simp [Reply.verdict, h0, h1, h.1]

/-- The next lexeme. -/
def peek : Parser (Option Lexeme) := do return (← look).1

/-- Passes over the next lexeme, if there is one. -/
def shift : Parser Unit where
  run c :=
    match c.rest with
    | [] => .done () c
    | _ :: rest => .done () ⟨c.position + 1, rest⟩
  after c := by
    cases hc : c.rest with
    | nil => exact .refl c
    | cons x rest =>
      exact ⟨Nat.le_succ _, by simp [hc], by simp [hc]⟩
  isLocal c d h := by
    obtain ⟨p, rest⟩ := c
    obtain ⟨q, rest'⟩ := d
    obtain ⟨rfl, h⟩ := h
    cases rest <;> cases rest' <;> simp_all [Reply.verdict, Reply.position]

/-- The place of the cursor. -/
def position : Parser Nat where
  run c := .done c.position c
  after c := .refl c
  isLocal c d h := by simp [Reply.verdict, h.1]

/-- Repeats a parser, turn by turn, until a turn leaves. A turn that would go on without having
read anything fails, so that there are no more turns than lexemes. -/
def loopRun (turn : σ → Parser (Turn σ α)) (s : σ) (c : Cursor) : Reply α :=
  match _h : (turn s).run c with
  | .failed p e => .failed p e
  | .done (.leave a) d => .done a d
  | .done (.again s') d =>
    if c.position < d.position then loopRun turn s' d else .failed d.position .exhausted
termination_by c.rest.length
decreasing_by
  have hr := (turn s).after c
  rw [_h] at hr
  have := hr.length_eq
  have := Cursor.Reaches.inside hr
  omega

theorem after_loopRun (turn : σ → Parser (Turn σ α)) (s : σ) (c : Cursor) :
    (loopRun turn s c).After c := by
  fun_induction loopRun turn s c with
  | case1 s c p e h =>
    have := (turn s).after c
    rwa [h] at this
  | case2 s c a d h =>
    have := (turn s).after c
    rwa [h] at this
  | case3 s c s' d h hlt ih =>
    have := (turn s).after c
    rw [h] at this
    exact Reply.After.trans this ih
  | case4 s c s' d h hlt =>
    have := (turn s).after c
    rw [h] at this
    exact ⟨Cursor.Reaches.le this, Cursor.Reaches.inside this⟩

theorem isLocal_loopRun (turn : σ → Parser (Turn σ α)) (s : σ) (c : Cursor) :
    ∀ d, c.Agree d ((loopRun turn s c).position - c.position + 2) →
      (loopRun turn s d).verdict = (loopRun turn s c).verdict := by
  fun_induction loopRun turn s c with
  | case1 s c p e h =>
    intro d hd
    have hv := (turn s).isLocal c d (by rwa [h])
    rw [h] at hv
    rw [loopRun, Reply.verdict_failed hv]
  | case2 s c a c' h =>
    intro d hd
    have hv := (turn s).isLocal c d (by rwa [h])
    rw [h] at hv
    obtain ⟨d', hd', hpos⟩ := Reply.verdict_done hv
    rw [loopRun, hd']
    simp [Reply.verdict, hpos]
  | case3 s c s' c' h hlt ih =>
    intro d hd
    have hr := (turn s).after c
    have hs := (turn s).after d
    rw [h] at hr
    have hle := (after_loopRun turn s' c').le
    have hv := (turn s).isLocal c d (by
      rw [h]
      exact hd.mono (show c'.position - c.position + 2 ≤ _ by omega))
    rw [h] at hv
    obtain ⟨d', hd', hpos⟩ := Reply.verdict_done hv
    rw [hd'] at hs
    rw [loopRun, hd']
    have hlt' : d.position < d'.position := by rw [hpos, ← hd.1]; exact hlt
    simp only [hlt', if_true]
    exact ih d' ((hd.reach hr hs hpos.symm).mono (by omega))
  | case4 s c s' c' h hlt =>
    intro d hd
    have hv := (turn s).isLocal c d (by rwa [h])
    rw [h] at hv
    obtain ⟨d', hd', hpos⟩ := Reply.verdict_done hv
    rw [loopRun, hd']
    have hlt' : ¬ d.position < d'.position := by rw [hpos, ← hd.1]; exact hlt
    simp only [hlt', if_false]
    simp [Reply.verdict, hpos]

/-- The parser of a loop. -/
def loop (turn : σ → Parser (Turn σ α)) (s : σ) : Parser α where
  run := loopRun turn s
  after := after_loopRun turn s
  isLocal := isLocal_loopRun turn s

/-- Whether the next lexeme is this one. -/
def at? (lexeme : Lexeme) : Parser Bool := do return (← peek) = some lexeme

/-- Passes over the next lexeme if it is this one, and says whether it is. -/
def accept (lexeme : Lexeme) : Parser Bool := do
  if ← at? lexeme then
    shift
    return true
  else return false

/-- Passes over a symbol, which has to come next. -/
def symbol (s : Symbol) : Parser Unit := do
  if ← accept (.symbol s) then return () else fail (.expected (.symbol s))

/-- Passes over a keyword, which has to come next. -/
def keyword (k : Keyword) : Parser Unit := do
  if ← accept (.keyword k) then return () else fail (.expected (.keyword k))

end Parser

end EnsembleCompiler.Target
