import EnsembleCompiler.Proofs.Target.Mirroring

/-!
# Levels of recursion

A parser that is given more levels of recursion answers as it did before, unless it had asked for
more than it was given. So the levels that are enough for a text decide its answer, and further
ones change nothing. Nor do places: the parser of a file answers alike whatever they are, and its
tree without them is always the same.
-/

namespace EnsembleCompiler.Target

open Target.Parser Grammar

variable {α β σ τ : Type} [Places σ] [Places τ]

/-- The answer to the lexemes of a file, where items have so many levels of recursion. -/
def fileWithin (levels : Nat) (ls : List Lexeme) : Reply (File σ) :=
  (file (Grammar.parse levels .item)).run ⟨0, ls⟩

/-! ### Answers -/

namespace Reply

/-- The answer with another value. -/
def map (f : α → β) : Reply α → Reply β
  | done a d => .done (f a) d
  | failed i cause => .failed i cause

theorem map_id (r : Reply α) : r.map id = r := by cases r <;> rfl

/-- The answer is that there are not enough levels. -/
def isExhausted : Reply α → Bool
  | failed _ .exhausted => true
  | _ => false

theorem isExhausted_map (f : α → β) (r : Reply α) : (r.map f).isExhausted = r.isExhausted := by
  rcases r with a | ⟨i, cause⟩
  · rfl
  · cases cause <;> rfl

/-- An answer without the cursor after it. -/
def result : Reply α → Except SyntaxError α
  | done a _ => .ok a
  | failed i cause => .error ⟨i, cause⟩

theorem result_map (f : α → β) (r : Reply α) : (r.map f).result = r.result.map f := by
  cases r <;> rfl

theorem result_eq_error {r : Reply α} {i : Nat} {cause : SyntaxCause} :
    r.result = .error ⟨i, cause⟩ ↔ r = .failed i cause := by
  cases r <;> simp [result]

theorem result_eq_ok {r : Reply α} {a : α} : r.result = .ok a ↔ ∃ d, r = .done a d := by
  cases r <;> simp [result]

theorem isExhausted_eq_false {r : Reply α} :
    r.isExhausted = false ↔ ∀ i, r ≠ .failed i .exhausted := by
  rcases r with a | ⟨i, cause⟩
  · simp [isExhausted]
  · cases cause <;> simp [isExhausted]

end Reply

/-! ### Other places and more levels -/

/-- The same lexemes, read with other places and further levels. -/
structure Surroundings.IsPlain (v : Surroundings σ τ) : Prop where
  before_eq : v.before = 0
  behind_eq : v.behind = []

theorem Surroundings.IsPlain.within_eq {v : Surroundings σ τ} (hv : v.IsPlain) (c : Cursor) :
    c.within v = c := by
  rw [Cursor.within, hv.before_eq, hv.behind_eq, List.append_nil]
  rfl

/-- A file is read alike with other places and further levels, unless it is exhausted and has more
levels then. -/
theorem fileWithin_replaced {v : Surroundings σ τ} (hv : v.IsPlain) {levels : Nat} {ls : List Lexeme}
    (h : v.levels = 0 ∨ (fileWithin levels ls : Reply (File σ)).isExhausted = false) :
    fileWithin (levels + v.levels) ls = (fileWithin levels ls).map (File.map v.place) := by
  let p : Parser (File σ) := file (Grammar.parse levels .item)
  let q : Parser (File τ) := file (Grammar.parse (levels + v.levels) .item)
  have hfile : Mirrors v Always (Becomes (File.map v.place)) p q :=
    mirrors_file (mirrored_parse v levels).item
  have hp : fileWithin levels ls = p.run ⟨0, ls⟩ := rfl
  have hq : fileWithin (levels + v.levels) ls = q.run ⟨0, ls⟩ := rfl
  rw [hp] at h ⊢
  rw [hq]
  cases hrun : p.run ⟨0, ls⟩ with
  | done tree d =>
    obtain ⟨_, hread, rfl⟩ := hfile.reads trivial hrun (.inl hv.behind_eq)
    rw [hv.within_eq, hv.within_eq] at hread
    exact hread
  | failed i cause =>
    -- a reply that is not exhausted allows for more levels; any other forbids them
    have hlevels : cause = .exhausted → v.levels = 0 := by
      rintro rfl
      rw [hrun] at h
      exact h.resolve_right Bool.noConfusion
    have hfails := hfile.fails trivial ⟨hv.before_eq, hv.behind_eq, hlevels⟩ hrun
    rw [hv.within_eq, hv.before_eq] at hfails
    exact hfails

/-- Places are forgotten. -/
def Surroundings.forget (σ : Type) [Places σ] : Surroundings σ Unit where
  before := 0
  behind := []
  levels := 0
  place := fun _ => ()
  place_token _ := rfl
  place_before _ := rfl
  place_merge _ _ := rfl

/-- Nothing is added but levels of recursion. -/
def Surroundings.further (σ : Type) [Places σ] (levels : Nat) : Surroundings σ σ where
  before := 0
  behind := []
  levels := levels
  place := id
  place_token _ := rfl
  place_before _ := rfl
  place_merge _ _ := rfl

/-- The form of a file does not depend on what places are. -/
theorem fileWithin_erase (levels : Nat) (ls : List Lexeme) :
    (fileWithin levels ls : Reply (File Unit)) =
      (fileWithin levels ls : Reply (File σ)).map File.erase :=
  fileWithin_replaced (v := Surroundings.forget σ) ⟨rfl, rfl⟩ (.inl rfl)

/-- A block is found to be open only at the end of the lexemes. -/
theorem eq_length_of_openBlock {levels i opener : Nat} {ls : List Lexeme}
    (h : (fileWithin levels ls : Reply (File σ)) = .failed i (.openBlock opener)) : i = ls.length := by
  have hfile : Mirrors (.further σ 0) Always _ (file (Grammar.parse levels .item)) _ :=
    mirrors_file (mirrored_parse _ levels).item
  have hi := hfile.blames (c := ⟨0, ls⟩) trivial h
  rwa [Nat.zero_add] at hi

/-! ### Enough levels -/

/-- The levels are enough: at no moment are that many calls of goals active and one more is made. -/
def Suffice (levels : Nat) (ls : List Lexeme) : Prop :=
  (fileWithin levels ls : Reply (File Unit)).isExhausted = false

instance (levels : Nat) (ls : List Lexeme) : Decidable (Suffice levels ls) :=
  inferInstanceAs (Decidable (_ = _))

/-- Whether levels are enough does not depend on what places are. -/
theorem suffice_iff (σ : Type) [Places σ] {levels : Nat} {ls : List Lexeme} :
    Suffice levels ls ↔ ∀ i, (fileWithin levels ls : Reply (File σ)) ≠ .failed i .exhausted := by
  rw [Suffice, fileWithin_erase (σ := σ), Reply.isExhausted_map, Reply.isExhausted_eq_false]

/-- Where the levels are enough, further ones change nothing. -/
theorem Suffice.fileWithin_add {levels : Nat} {ls : List Lexeme} (h : Suffice levels ls)
    (further : Nat) : (fileWithin (levels + further) ls : Reply (File σ)) = fileWithin levels ls := by
  have henough : (fileWithin levels ls : Reply (File σ)).isExhausted = false :=
    Reply.isExhausted_eq_false.2 ((suffice_iff σ).1 h)
  have hread := fileWithin_replaced (v := Surroundings.further σ further) ⟨rfl, rfl⟩ (.inr henough)
  have hid : (File.map id : File σ → File σ) = id := funext File.map_id
  rw [show (Surroundings.further σ further).place = id from rfl, hid, Reply.map_id] at hread
  exact hread

theorem Suffice.mono {levels more : Nat} {ls : List Lexeme} (h : Suffice levels ls)
    (hle : levels ≤ more) : Suffice more ls := by
  obtain ⟨further, rfl⟩ := Nat.exists_eq_add_of_le hle
  unfold Suffice
  rw [h.fileWithin_add]
  exact h

/-! ### Files -/

theorem ofLexemes_eq_result (ls : List Lexeme) :
    (File.ofLexemes ls : Except SyntaxError (File σ)) = (fileWithin (ls.length + 1) ls).result := by
  unfold File.ofLexemes fileWithin
  generalize Parser.run (file (Grammar.parse (ls.length + 1) .item) : Parser (File σ)) ⟨0, ls⟩ = reply
  cases reply <;> rfl

/-- The tree of lexemes with other places is their tree with its places replaced. -/
theorem ofLexemes_replaced {v : Surroundings σ τ} (hv : v.IsPlain) (hlevels : v.levels = 0)
    (ls : List Lexeme) : (File.ofLexemes ls : Except SyntaxError (File τ)) =
      (File.ofLexemes ls : Except SyntaxError (File σ)).map (File.map v.place) := by
  have hread : fileWithin (ls.length + 1 + v.levels) ls =
      (fileWithin (ls.length + 1) ls).map (File.map v.place) := fileWithin_replaced hv (.inl hlevels)
  rw [hlevels, Nat.add_zero] at hread
  rw [ofLexemes_eq_result, ofLexemes_eq_result, hread, Reply.result_map]

/-- The tree of lexemes without places, and their syntax error, are the same for all places. -/
theorem ofLexemes_erase (ls : List Lexeme) :
    (File.ofLexemes ls : Except SyntaxError (File Unit)) =
      (File.ofLexemes ls : Except SyntaxError (File σ)).map File.erase :=
  ofLexemes_replaced (v := Surroundings.forget σ) ⟨rfl, rfl⟩ rfl ls

end EnsembleCompiler.Target
