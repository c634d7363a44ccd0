import EnsembleCompiler.Json.Shape

/-!
# What readers make of a text

The rules for readers without regard to places: what each of them takes from the front of a text,
or that it fails.
-/

namespace EnsembleCompiler.Json

namespace Reader

variable {α β σ : Type}

/-- What a reader makes of a text, wherever the text stands: a value and the text that is left. -/
def on (p : Reader α) (cs : List Char) : Option (α × List Char) := outcome (p.run ⟨0, cs⟩)

theorem outcome_run (p : Reader α) (c : Cursor) : outcome (p.run c) = p.on c.rest :=
  p.placeless rfl

@[simp]
theorem on_pure (a : α) (cs : List Char) : (pure a : Reader α).on cs = some (a, cs) := rfl

@[simp]
theorem on_bind (p : Reader α) (f : α → Reader β) (cs : List Char) :
    (p >>= f).on cs = (p.on cs).bind fun (a, rest) => (f a).on rest := by
  change outcome ((p.bind f).run ⟨0, cs⟩) = _
  cases hread : p.run ⟨0, cs⟩ with
  | error e =>
    simp only [Reader.bind, on, hread]
    rfl
  | ok read =>
    simp only [Reader.bind, on, hread]
    exact (f read.1).outcome_run read.2

@[simp]
theorem on_failAt (cause : Cause) (place : Cursor → Nat) (cs : List Char) :
    (failAt cause place : Reader α).on cs = none := rfl

@[simp]
theorem on_failHere (cause : Cause) (cs : List Char) :
    (failHere cause : Reader α).on cs = none := rfl

@[simp]
theorem on_failPast (cause : Cause) (cs : List Char) :
    (failPast cause : Reader α).on cs = none := rfl

@[simp]
theorem on_failNext (cause : Cause) (cs : List Char) :
    (failNext cause : Reader α).on cs = none := rfl

@[simp]
theorem on_failUnplaced (cause : Cause) (cs : List Char) :
    (failUnplaced cause : Reader α).on cs = none := rfl

@[simp]
theorem on_placing (place : Cursor → Nat) (p : Reader α) (cs : List Char) :
    (placing place p).on cs = p.on cs := by
  simp only [on, placing]
  cases p.run ⟨0, cs⟩ with
  | error e => cases e <;> rfl
  | ok read => rfl

@[simp]
theorem on_peek (cs : List Char) : peek.on cs = some (cs.head?, cs) := rfl

@[simp]
theorem on_shift (c : Char) (cs : List Char) : shift.on (c :: cs) = some ((), cs) := rfl

@[simp]
theorem on_takeWhile (p : Char → Bool) (cs : List Char) :
    (takeWhile p).on cs = some (cs.takeWhile p, cs.dropWhile p) := rfl

/-- One turn of a loop. -/
theorem on_loop (turn : σ → Reader (Turn σ α)) (s : σ) (cs : List Char) :
    (loop turn s).on cs = ((turn s).on cs).bind fun
      | (.leave a, rest) => some (a, rest)
      | (.again s', rest) => if rest.length < cs.length then (loop turn s').on rest else none := by
  have hloop : (loop turn s).on cs = outcome (loopRun turn s ⟨0, cs⟩) := rfl
  rw [hloop, loopRun_eq, on]
  cases hrun : (turn s).run ⟨0, cs⟩ with
  | error e => rfl
  | ok read =>
    obtain ⟨next, d⟩ := read
    cases next with
    | leave a => rfl
    | again s' =>
      have hlt := ((turn s).reaches hrun).index_lt_iff
      have hrest : outcome (loopRun turn s' d) = (loop turn s').on d.rest :=
        (loop turn s').outcome_run d
      by_cases hless : d.rest.length < cs.length
      · simpa [hlt, hless, outcome] using hrest
      · simp [hlt, hless, outcome]

theorem on_loop_leave {turn : σ → Reader (Turn σ α)} {s : σ} {cs rest : List Char} {a : α}
    (h : (turn s).on cs = some (.leave a, rest)) : (loop turn s).on cs = some (a, rest) := by
  rw [on_loop, h, Option.bind_some]

theorem on_loop_again {turn : σ → Reader (Turn σ α)} {s s' : σ} {cs rest : List Char}
    (h : (turn s).on cs = some (.again s', rest)) (hlt : rest.length < cs.length) :
    (loop turn s).on cs = (loop turn s').on rest := by
  rw [on_loop, h, Option.bind_some]
  exact if_pos hlt

theorem on_loop_none {turn : σ → Reader (Turn σ α)} {s : σ} {cs : List Char}
    (h : (turn s).on cs = none) : (loop turn s).on cs = none := by
  rw [on_loop, h, Option.bind_none]

theorem on_peekToken (cs : List Char) : peekToken.on cs =
    some ((cs.dropWhile isJsonBlank).head?, cs.dropWhile isJsonBlank) := by
  simp [peekToken]

@[simp]
theorem on_word_nil (cs : List Char) : (word []).on cs = some ((), cs) := rfl

@[simp]
theorem on_word_cons (c : Char) (letters cs : List Char) :
    (word (c :: letters)).on (c :: cs) = (word letters).on cs := by
  simp [word]

@[simp]
theorem on_word (letters cs : List Char) : (word letters).on (letters ++ cs) = some ((), cs) := by
  induction letters with
  | nil => rfl
  | cons c letters ih => rw [List.cons_append, on_word_cons, ih]

@[simp]
theorem on_unexpected (expected : String) (cs : List Char) :
    (unexpected expected : Reader α).on cs = none := by
  simp only [unexpected, on_bind, on_peekToken, Option.bind_some]
  split <;> simp

end Reader

end EnsembleCompiler.Json
