import EnsembleCompiler.Target.Grammar.Items

/-!
# A logic for parsers

`Takes p c Q`: the parser `p` succeeds at the cursor `c` with a value and a cursor that satisfy
`Q`. Each primitive has a rule, so that a parser whose definition is unfolded is run over
lexemes that are known by rewriting. `Reads` is the form of the results: a construct is read from
its lexemes, whatever follows them of a certain kind. There the places are those of `Unit`, so that
a tree is nothing but its form.
-/

namespace EnsembleCompiler.Target

open Target.Parser

variable {α β : Type}

/-- Holds of every value. -/
def Always : α → Prop := fun _ => True

/-- Holds of no value. -/
def Never : α → Prop := fun _ => False

section Answers

variable {κ : Type} {p : Parser α} {f : α → Parser β} {turn : κ → Parser (Turn κ α)} {s t : κ}
  {a : α} {b : β} {c d : Cursor} {x : Lexeme} {i : Nat} {cause : SyntaxCause}

/-! ### Answers -/

/-- A bind that is done has both of its parts done. -/
theorem Parser.bind_done (h : (p >>= f).run c = .done b d) :
    ∃ a e, p.run c = .done a e ∧ (f a).run e = .done b d := by
  rw [run_bind] at h
  cases hrun : p.run c with
  | done a e =>
    rw [hrun] at h
    exact ⟨a, e, rfl, h⟩
  | failed q cause =>
    rw [hrun] at h
    cases h

theorem bind_failed (h : (p >>= f).run c = .failed i cause) :
    p.run c = .failed i cause ∨ ∃ a d, p.run c = .done a d ∧ (f a).run d = .failed i cause := by
  rw [run_bind] at h
  cases hrun : p.run c with
  | done a d =>
    rw [hrun] at h
    exact .inr ⟨a, d, rfl, h⟩
  | failed j e =>
    rw [hrun] at h
    cases h
    exact .inl rfl

theorem run_bind_done (h : p.run c = .done a d) (f : α → Parser β) :
    (p >>= f).run c = (f a).run d := by
  rw [run_bind, h]

theorem run_bind_failed (h : p.run c = .failed i cause) (f : α → Parser β) :
    (p >>= f).run c = .failed i cause := by
  rw [run_bind, h]

/-- The end of the lexemes is where it was before some of them have been read. -/
theorem end_eq (hrun : p.run c = .done a d) :
    d.position + d.rest.length = c.position + c.rest.length := by
  have hafter := p.after c
  rw [hrun] at hafter
  have hlength := Cursor.Reaches.length_eq hafter
  have hle := Cursor.Reaches.le hafter
  have hinside := Cursor.Reaches.inside hafter
  omega

theorem run_loop_failed (h : (turn s).run c = .failed i cause) :
    (loop turn s).run c = .failed i cause := by
  show loopRun turn s c = _
  rw [loopRun, h]

theorem run_loop_leave (h : (turn s).run c = .done (.leave a) d) :
    (loop turn s).run c = .done a d := by
  show loopRun turn s c = _
  rw [loopRun, h]

theorem run_loop_again (h : (turn s).run c = .done (.again t) d) (hlt : c.position < d.position) :
    (loop turn s).run c = (loop turn t).run d := by
  show loopRun turn s c = loopRun turn t d
  rw [loopRun, h]
  simp only [hlt, if_true]

theorem Parser.run_accept_cons (m : Nat) (ls : List Lexeme) :
    (accept x).run ⟨m, x :: ls⟩ = .done true ⟨m + 1, ls⟩ := by
  have hat : (at? x).run ⟨m, x :: ls⟩ = .done (decide (some x = some x)) ⟨m, x :: ls⟩ := rfl
  rw [accept, run_bind, hat, decide_eq_true rfl]
  rfl

theorem Parser.run_accept_other (h : c.rest[0]? ≠ some x) : (accept x).run c = .done false c := by
  have hat : (at? x).run c = .done (decide (c.rest[0]? = some x)) c := rfl
  rw [accept, run_bind, hat, decide_eq_false h]
  rfl

theorem Parser.run_symbol_cons (s : Symbol) (m : Nat) (ls : List Lexeme) :
    (symbol s).run ⟨m, .symbol s :: ls⟩ = .done () ⟨m + 1, ls⟩ := by
  rw [symbol, run_bind, run_accept_cons]
  rfl

theorem Parser.run_symbol_other {s : Symbol} (h : c.rest[0]? ≠ some (Lexeme.symbol s)) :
    (symbol s).run c = .failed c.position (.expected (.symbol s)) := by
  rw [symbol, run_bind, run_accept_other h]
  rfl

end Answers

/-- `p` succeeds at `c` with a value and a cursor that satisfy `Q`. -/
def Takes (p : Parser α) (c : Cursor) (Q : α → Cursor → Prop) : Prop :=
  ∃ a d, p.run c = .done a d ∧ Q a d

theorem Takes.mono {p : Parser α} {c : Cursor} {Q R : α → Cursor → Prop} (h : Takes p c Q)
    (hQ : ∀ a d, Q a d → R a d) : Takes p c R := by
  obtain ⟨a, d, hrun, hq⟩ := h
  exact ⟨a, d, hrun, hQ a d hq⟩

variable {σ : Type} [Places σ] {c : Cursor} {n : Nat} {ls : List Lexeme} {lexeme next : Lexeme}
  {Q : α → Cursor → Prop}

/-! ### Rules -/

@[simp] theorem takes_pure (a : α) : Takes (pure a) c Q ↔ Q a c := by
  show (∃ b d, Reply.done a c = .done b d ∧ Q b d) ↔ _
  simp [and_assoc]

@[simp] theorem takes_bind (p : Parser β) (f : β → Parser α) :
    Takes (p >>= f) c Q ↔ Takes p c fun b d => Takes (f b) d Q := by
  unfold Takes
  rw [run_bind]
  cases p.run c <;> simp [and_assoc]

@[simp] theorem takes_map (p : Parser β) (f : β → α) :
    Takes (f <$> p) c Q ↔ Takes p c fun b d => Q (f b) d := by
  show Takes (p >>= fun b => pure (f b)) c Q ↔ _
  simp

@[simp] theorem takes_fail (cause : SyntaxCause) : Takes (fail cause : Parser α) c Q ↔ False := by
  simp [Takes, fail]

@[simp] theorem takes_ite (p : Prop) [Decidable p] (a b : Parser α) :
    Takes (if p then a else b) c Q ↔ if p then Takes a c Q else Takes b c Q := by
  split <;> rfl

@[simp] theorem takes_look {Q : Option Lexeme × Option Lexeme → Cursor → Prop} :
    Takes look c Q ↔ Q (c.rest[0]?, c.rest[1]?) c := by
  simp [Takes, look, and_assoc]

@[simp] theorem takes_peek {Q : Option Lexeme → Cursor → Prop} :
    Takes peek c Q ↔ Q c.rest[0]? c := by
  simp [peek]

@[simp] theorem takes_position {Q : Nat → Cursor → Prop} :
    Takes position c Q ↔ Q c.position c := by
  simp [Takes, position, and_assoc]

@[simp] theorem takes_shift {Q : Unit → Cursor → Prop} :
    Takes shift ⟨n, lexeme :: ls⟩ Q ↔ Q () ⟨n + 1, ls⟩ := by
  constructor
  · rintro ⟨⟨⟩, d, hrun, hq⟩
    cases hrun
    exact hq
  · intro hq
    exact ⟨(), _, rfl, hq⟩

@[simp] theorem takes_at {Q : Bool → Cursor → Prop} :
    Takes (at? lexeme) c Q ↔ Q (decide (c.rest[0]? = some lexeme)) c := by
  simp [at?]

@[simp] theorem takes_accept {Q : Bool → Cursor → Prop} :
    Takes (accept lexeme) ⟨n, next :: ls⟩ Q ↔
      if next = lexeme then Q true ⟨n + 1, ls⟩ else Q false ⟨n, next :: ls⟩ := by
  simp [accept]

theorem takes_accept_ne {Q : Bool → Cursor → Prop} (h : c.rest[0]? ≠ some lexeme) :
    Takes (accept lexeme) c Q ↔ Q false c := by
  simp [accept, h]

@[simp] theorem takes_symbol {s : Symbol} {Q : Unit → Cursor → Prop} :
    Takes (symbol s) ⟨n, .symbol s :: ls⟩ Q ↔ Q () ⟨n + 1, ls⟩ := by
  simp [symbol]

@[simp] theorem takes_keyword {k : Keyword} {Q : Unit → Cursor → Prop} :
    Takes (keyword k) ⟨n, .keyword k :: ls⟩ Q ↔ Q () ⟨n + 1, ls⟩ := by
  simp [keyword]

@[simp] theorem takes_currentPlace {Q : σ → Cursor → Prop} :
    Takes currentPlace c Q ↔ Q (Places.token c.position) c := by
  simp [currentPlace]

@[simp] theorem takes_previousPlace {Q : σ → Cursor → Prop} :
    Takes previousPlace c Q ↔ Q (Places.before c.position) c := by
  simp [previousPlace]

@[simp] theorem takes_advance {Q : σ → Cursor → Prop} :
    Takes advance ⟨n, lexeme :: ls⟩ Q ↔ Q (Places.token n) ⟨n + 1, ls⟩ := by
  simp [advance]

@[simp] theorem takes_located {p : Parser (σ → α)} :
    Takes (located p) c Q ↔ Takes p c fun f d =>
      Q (f (Places.merge (Places.token c.position) (Places.before d.position))) d := by
  simp [located]

@[simp] theorem takes_identifier {name : String} {Q : Name σ → Cursor → Prop} :
    Takes identifier ⟨n, .ident name :: ls⟩ Q ↔ Q ⟨Places.token n, name⟩ ⟨n + 1, ls⟩ := by
  simp [identifier]

@[simp] theorem takes_binder {name : String} {Q : Name σ → Cursor → Prop} :
    Takes binder ⟨n, .ident name :: ls⟩ Q ↔ Q ⟨Places.token n, name⟩ ⟨n + 1, ls⟩ := by
  simp [binder]

/-- A turn of a loop that goes on has to leave fewer lexemes. -/
theorem takes_loop {κ : Type} {turn : κ → Parser (Turn κ α)} {s : κ} :
    Takes (loop turn s) c Q ↔ Takes (turn s) c fun t d =>
      match t with
      | .leave a => Q a d
      | .again s' => d.rest.length < c.rest.length ∧ Takes (loop turn s') d Q := by
  have hafter := (turn s).after c
  unfold Takes
  show (∃ a d, loopRun turn s c = .done a d ∧ Q a d) ↔ _
  rw [loopRun]
  cases hrun : (turn s).run c with
  | failed p e => simp
  | done t d =>
    rw [hrun] at hafter
    have hlength := Cursor.Reaches.length_eq hafter
    have hinside := Cursor.Reaches.inside hafter
    have hle := Cursor.Reaches.le hafter
    cases t with
    | leave a => simp [and_assoc]
    | again s' =>
      -- position and remaining lexemes move together
      have hprogress : c.position < d.position ↔ d.rest.length < c.rest.length := by omega
      by_cases hlt : d.rest.length < c.rest.length
      · simp only [hprogress, hlt, if_true, Reply.done.injEq]
        constructor
        · rintro ⟨a, e, hloop, hq⟩
          exact ⟨_, _, ⟨rfl, rfl⟩, hlt, a, e, hloop, hq⟩
        · rintro ⟨t, e, ⟨rfl, rfl⟩, -, hloop⟩
          exact hloop
      · simp only [hprogress, hlt, if_false, Reply.done.injEq]
        constructor
        · rintro ⟨a, e, hloop, -⟩
          exact absurd hloop (by simp)
        · rintro ⟨t, e, ⟨rfl, rfl⟩, hless, -⟩
          exact absurd hless hlt

/-! ### Constructs -/

/-- Where places are of no interest, all of them are the same. -/
instance : Places Unit := ⟨fun _ => (), fun _ _ => (), ()⟩

/-- What a parser reads without places: from the lexemes `ls`, when what follows them satisfies
`follow`, it reads the value `a`. The lexemes bound the depth of the recursion. -/
def Reads (p : Table Unit → Parser α) (follow : List Lexeme → Prop) (ls : List Lexeme) (a : α) :
    Prop :=
  ∀ depth n rest, ls.length ≤ depth → follow rest →
    Takes (p fun goal => Grammar.parse depth goal) ⟨n, ls ++ rest⟩ fun b c =>
      b = a ∧ ∃ m, c = ⟨m, rest⟩

/-- A construct inside another one, with at least one lexeme before it. -/
theorem Reads.call {goal : Goal Unit α} {follow : List Lexeme → Prop} {ls rest : List Lexeme}
    {a : α} {depth n : Nat} (h : Reads (fun table => Grammar.step table goal) follow ls a)
    (hdepth : ls.length < depth) (hrest : follow rest) :
    Takes (Grammar.parse depth goal) ⟨n, ls ++ rest⟩ fun b c => b = a ∧ ∃ m, c = ⟨m, rest⟩ := by
  cases depth with
  | zero => omega
  | succ depth => exact h depth n rest (by omega) hrest

end EnsembleCompiler.Target
