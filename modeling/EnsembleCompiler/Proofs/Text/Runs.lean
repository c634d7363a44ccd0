/-!
# Runs of characters

Where a run of characters of one class ends: the text that follows either is empty or begins with
a character of another class.
-/

namespace EnsembleCompiler

/-! ### Letters -/

theorem isUpper_iff {c : Char} : c.isUpper = true ↔ 'A' ≤ c ∧ c ≤ 'Z' := decide_eq_true_iff

theorem isLower_iff {c : Char} : c.isLower = true ↔ 'a' ≤ c ∧ c ≤ 'z' := by
  have hbool : c.isLower = (decide ('a' ≤ c) && decide (c ≤ 'z')) := rfl
  rw [hbool, Bool.and_eq_true, decide_eq_true_iff, decide_eq_true_iff]

theorem isAlpha_iff {c : Char} :
    c.isAlpha = true ↔ ('A' ≤ c ∧ c ≤ 'Z') ∨ ('a' ≤ c ∧ c ≤ 'z') := by
  have hbool : c.isAlpha = (c.isUpper || c.isLower) := rfl
  rw [hbool, Bool.or_eq_true, isUpper_iff, isLower_iff]

/-! ### Where a run ends -/

/-- The first of these characters, if there is one, satisfies `p`. -/
def NextChar (p : Char → Prop) (cs : List Char) : Prop := ∀ c ∈ cs.head?, p c

namespace NextChar

variable {p q : Char → Prop} {cs rest : List Char}

theorem mono (h : NextChar p cs) (hpq : ∀ c, p c → q c) : NextChar q cs :=
  fun c hc => hpq c (h c hc)

theorem append (h : NextChar p cs) (hne : cs ≠ []) : NextChar p (cs ++ rest) := by
  cases cs with
  | nil => exact absurd rfl hne
  | cons c cs => simpa [NextChar] using h

theorem cons {c : Char} (h : p c) : NextChar p (c :: cs) := by
  simpa [NextChar] using h

end NextChar

theorem takeWhile_append_of_next {p : Char → Bool} {run rest : List Char}
    (hrun : ∀ c ∈ run, p c = true) (hrest : NextChar (fun c => p c = false) rest) :
    (run ++ rest).takeWhile p = run := by
  rw [List.takeWhile_append_of_pos hrun]
  cases rest with
  | nil => simp
  | cons c rest => simp [hrest c (by simp)]

theorem dropWhile_append_of_next {p : Char → Bool} {run rest : List Char}
    (hrun : ∀ c ∈ run, p c = true) (hrest : NextChar (fun c => p c = false) rest) :
    (run ++ rest).dropWhile p = rest := by
  rw [List.dropWhile_append_of_pos hrun]
  cases rest with
  | nil => simp
  | cons c rest => simp [hrest c (by simp)]

/-- At least one character, and all of them digits. -/
structure Digits (cs : List Char) : Prop where
  ne_nil : cs ≠ []
  isDigit : ∀ c ∈ cs, c.isDigit = true

namespace Digits

theorem append {cs ds : List Char} (hcs : Digits cs) (hds : ∀ d ∈ ds, d.isDigit = true) :
    Digits (cs ++ ds) := by
  refine ⟨by simp [hcs.ne_nil], fun c hc => ?_⟩
  rcases List.mem_append.1 hc with hc | hc
  · exact hcs.isDigit c hc
  · exact hds c hc

theorem exists_cons {cs : List Char} (h : Digits cs) :
    ∃ c tail, cs = c :: tail ∧ c.isDigit = true := by
  cases cs with
  | nil => exact absurd rfl h.ne_nil
  | cons c tail => exact ⟨c, tail, rfl, h.isDigit c (by simp)⟩

end Digits

theorem digits_toDigits (n : Nat) : Digits (Nat.toDigits 10 n) :=
  ⟨Nat.toDigits_ne_nil, fun _ hc => Nat.isDigit_of_mem_toDigits (by omega) (by omega) hc⟩

end EnsembleCompiler
