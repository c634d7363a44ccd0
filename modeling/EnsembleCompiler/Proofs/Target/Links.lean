import EnsembleCompiler.Proofs.Target.Brackets
import Mathlib.Algebra.GroupWithZero.Nat

/-!
# Pending links

The nesting depth of a text counts open brackets and `else if` links. Behind every other link a
construct may go on inside itself too, up to the end of its statement or of the brackets around
it; `pendingLinks` is the most of them that are pending at once. Both together bound the openers
and links that are pending at any place of a text.
-/

namespace EnsembleCompiler.Target

/-- The nesting of the lexemes read so far with the links among them that are pending. -/
structure Survey extends Nesting where
  /-- The links since the last boundary inside the innermost bracket. -/
  here : Nat := 0
  /-- Those before each bracket that is open, the innermost first. -/
  outer : List Nat := []
  /-- The most links that were pending at once. -/
  most : Nat := 0

/-- The links behind one more lexeme: those inside its bracket and those around it. An `else if` is
not counted, since its nesting is part of the nesting depth. -/
def Survey.links (s : Survey) (x : Lexeme) : Nat × List Nat :=
  match x.role, s.outer with
  | .opener _, outer => (0, s.here :: outer)
  | .closer _, before :: outer => (before, outer)
  | .boundary, outer => (0, outer)
  | .link, outer =>
    if x = .keyword .ifKw ∧ s.previous = some (Lexeme.keyword .elseKw) then (s.here, outer)
    else (s.here + 1, outer)
  | _, outer => (s.here, outer)

/-- The survey after one more lexeme. -/
def Survey.read (s : Survey) (x : Lexeme) : Survey :=
  let (here, outer) := s.links x
  { s.toNesting.read x with here, outer, most := max s.most (here + outer.sum) }

/-- The most links, other than `else if`, that are pending at a place of a text. -/
def pendingLinks (lexemes : List Lexeme) : Nat := (lexemes.foldl Survey.read {}).most

/-! ### One more lexeme -/

theorem Lexeme.isSome_opens? (x : Lexeme) :
    x.opens?.isSome = match x.role with
      | .opener _ => true
      | _ => false := by
  rcases x with k | w | s | v | v | t | i
  · cases k <;> rfl
  · rfl
  · cases s <;> rfl
  all_goals rfl

theorem Lexeme.isSome_closes? (x : Lexeme) :
    x.closes?.isSome = match x.role with
      | .closer _ => true
      | _ => false := by
  rcases x with k | w | s | v | v | t | i
  · cases k <;> rfl
  · rfl
  · cases s <;> rfl
  all_goals rfl

namespace Nesting

variable {n : Nesting} {x : Lexeme}

theorem read_opened (n : Nesting) (x : Lexeme) :
    (n.read x).opened = match x.role with
      | .opener _ => n.opened + 1
      | .closer _ => n.opened - 1
      | _ => n.opened := by
  unfold read
  rw [x.isSome_opens?, x.isSome_closes?]
  cases x.role <;> simp only [Bool.false_eq_true, if_true, if_false] <;> split <;> rfl

theorem read_deepest (n : Nesting) (x : Lexeme) :
    (n.read x).deepest = match x.role with
      | .opener _ => max n.deepest (n.opened + 1)
      | _ => n.deepest := by
  unfold read
  rw [x.isSome_opens?, x.isSome_closes?]
  cases x.role <;> simp only [Bool.false_eq_true, if_true, if_false] <;> split <;> rfl

theorem read_elseIfs (n : Nesting) (x : Lexeme) :
    (n.read x).elseIfs =
      if x = .keyword .ifKw ∧ n.previous = some (Lexeme.keyword .elseKw) then n.elseIfs + 1
      else n.elseIfs := by
  by_cases h : x = .keyword .ifKw ∧ n.previous = some (Lexeme.keyword .elseKw)
  · obtain ⟨rfl, hprevious⟩ := h
    simp [read, Lexeme.opens?, Lexeme.closes?, hprevious]
  · rw [if_neg h]
    unfold read
    split
    · rfl
    · split
      · rfl
      · rfl

theorem elseIfs_le_read (n : Nesting) (x : Lexeme) : n.elseIfs ≤ (n.read x).elseIfs := by
  rw [read_elseIfs]
  split <;> omega

theorem deepest_le_read (n : Nesting) (x : Lexeme) : n.deepest ≤ (n.read x).deepest := by
  rw [read_deepest]
  split <;> omega

end Nesting

namespace Survey

variable {s t u : Survey} {x : Lexeme} {b : Bracket} {e : Extent} {ls : List Lexeme}

theorem read_toNesting (s : Survey) (x : Lexeme) :
    (s.read x).toNesting = s.toNesting.read x := rfl

theorem read_here (s : Survey) (x : Lexeme) : (s.read x).here = (s.links x).1 := rfl

theorem read_outer (s : Survey) (x : Lexeme) : (s.read x).outer = (s.links x).2 := rfl

theorem read_most (s : Survey) (x : Lexeme) :
    (s.read x).most = max s.most ((s.links x).1 + (s.links x).2.sum) := rfl

/-- What holds of every survey. -/
structure Sound (s : Survey) : Prop where
  opened_eq : s.opened = s.outer.length
  opened_le : s.opened ≤ s.deepest
  links_le : s.here + s.outer.sum ≤ s.most

theorem Sound.read (h : s.Sound) (x : Lexeme) : (s.read x).Sound where
  opened_eq := by
    rw [read_toNesting, Nesting.read_opened, read_outer, h.opened_eq]
    unfold links
    cases x.role <;> cases s.outer <;> first | rfl | (dsimp only; split <;> rfl)
  opened_le := by
    have hle := h.opened_le
    rw [read_toNesting, Nesting.read_opened, Nesting.read_deepest]
    cases x.role <;> dsimp only <;> omega
  links_le := by
    rw [read_here, read_outer, read_most]
    exact Nat.le_max_right _ _

theorem Sound.foldl (h : s.Sound) (ls : List Lexeme) : (ls.foldl Survey.read s).Sound := by
  induction ls generalizing s with
  | nil => exact h
  | cons x ls ih => exact ih (h.read x)

/-- All that a survey has found. -/
def total (s : Survey) : Nat := s.deepest + s.elseIfs + s.most

theorem total_le_read (s : Survey) (x : Lexeme) : s.total ≤ (s.read x).total := by
  have hdeepest := s.toNesting.deepest_le_read x
  have helseIfs := s.toNesting.elseIfs_le_read x
  have hmost : s.most ≤ (s.read x).most := Nat.le_max_left _ _
  unfold total
  rw [read_toNesting]
  omega

theorem total_le_foldl (s : Survey) (ls : List Lexeme) : s.total ≤ (ls.foldl Survey.read s).total := by
  induction ls generalizing s with
  | nil => exact Nat.le_refl _
  | cons x ls ih => exact Nat.le_trans (s.total_le_read x) (ih _)

theorem toNesting_foldl (s : Survey) (ls : List Lexeme) :
    (ls.foldl Survey.read s).toNesting = ls.foldl Nesting.read s.toNesting := by
  induction ls generalizing s with
  | nil => rfl
  | cons x ls ih => exact ih _

/-! ### Stretches -/

/-- The survey `t` stands behind a bracketed stretch that `s` stands in front of. -/
structure Resumes (e : Extent) (s t : Survey) : Prop where
  outer_eq : t.outer = s.outer
  elseIfs_le : s.elseIfs ≤ t.elseIfs
  here_le : e = .phrase → s.here ≤ t.here

theorem Resumes.refl : Resumes e s s := ⟨rfl, Nat.le_refl _, fun _ => Nat.le_refl _⟩

theorem Resumes.trans (h : Resumes e s t) (k : Resumes e t u) : Resumes e s u :=
  ⟨k.outer_eq.trans h.outer_eq, Nat.le_trans h.elseIfs_le k.elseIfs_le,
    fun he => Nat.le_trans (h.here_le he) (k.here_le he)⟩

theorem links_quiet (s : Survey) (hx : x.role.Quiet e) :
    (s.links x).2 = s.outer ∧ (e = .phrase → s.here ≤ (s.links x).1) := by
  cases hrole : x.role with
  | opener b | closer b | hash =>
    rw [hrole] at hx
    cases hx
  | boundary =>
    rw [hrole] at hx
    obtain rfl : e = .series := hx
    simp [links, hrole]
  | link =>
    simp only [links, hrole]
    split
    · exact ⟨rfl, fun _ => Nat.le_refl _⟩
    · exact ⟨rfl, fun _ => Nat.le_succ _⟩
  | plain => simp [links, hrole]

theorem links_opener (s : Survey) : s.links (.symbol b.opener) = (0, s.here :: s.outer) := by
  simp [links]

theorem links_closer {before : Nat} {outer : List Nat} (h : s.outer = before :: outer) :
    s.links (.symbol b.closer) = (before, outer) := by
  simp [links, h]

theorem resumes_read (hx : x.role.Quiet e) : Resumes e s (s.read x) := by
  obtain ⟨houter, hhere⟩ := s.links_quiet hx
  exact ⟨houter, s.toNesting.elseIfs_le_read x, hhere⟩

/-- The arguments of an attribute leave what was pending around the brackets that they close. -/
theorem outer_arguments {d : Nat} {front rest : List Nat} (h : Nested d ls)
    (houter : s.outer = front ++ rest) (hfront : front.length = d) :
    (ls.foldl Survey.read s).outer = rest ∧ s.elseIfs ≤ (ls.foldl Survey.read s).elseIfs := by
  induction ls generalizing s d front with
  | nil =>
    obtain rfl : d = 0 := h
    obtain rfl : front = [] := List.length_eq_zero_iff.mp hfront
    exact ⟨houter, Nat.le_refl _⟩
  | cons x ls ih =>
    have hle := s.toNesting.elseIfs_le_read x
    simp only [Nested] at h
    -- one lexeme opens or closes an argument, or leaves what is pending outside alone
    have hnext : ∃ d' front', Nested d' ls ∧ (s.read x).outer = front' ++ rest ∧
        front'.length = d' := by
      rw [read_outer]
      cases hrole : x.role with
      | opener b =>
        rw [hrole] at h
        exact ⟨d + 1, s.here :: front, h, by simp [links, hrole, houter], by simp [hfront]⟩
      | closer b =>
        rw [hrole] at h
        obtain ⟨hpos, h⟩ := h
        cases front with
        | nil => simp at hfront; omega
        | cons before front =>
          refine ⟨d - 1, front, h, by simp [links, hrole, houter], ?_⟩
          rw [← hfront, List.length_cons, Nat.add_sub_cancel]
      | hash =>
        rw [hrole] at h
        exact ⟨d, front, h, by simp [links, hrole, houter], hfront⟩
      | boundary =>
        rw [hrole] at h
        exact ⟨d, front, h, by simp [links, hrole, houter], hfront⟩
      | link | plain =>
        have hquiet : x.role.Quiet .phrase := by rw [hrole]; trivial
        rw [hrole] at h
        exact ⟨d, front, h, (s.links_quiet hquiet).1.trans houter, hfront⟩
    obtain ⟨d', front', h', houter', hfront'⟩ := hnext
    obtain ⟨hrest, hle'⟩ := ih h' houter' hfront'
    exact ⟨hrest, Nat.le_trans hle hle'⟩

theorem resumes_hash (s : Survey) : Resumes e s (s.read (.symbol .hash)) :=
  ⟨rfl, s.toNesting.elseIfs_le_read _, fun _ => Nat.le_refl _⟩

/-- The closer of a bracket brings back what was pending in front of its opener. -/
theorem resumes_closer (b : Bracket) (houter : t.outer = s.here :: s.outer)
    (helseIfs : (s.read (.symbol b.opener)).elseIfs ≤ t.elseIfs) :
    Resumes e s (t.read (.symbol b.closer)) := by
  have hlinks : t.links (.symbol b.closer) = (s.here, s.outer) := links_closer houter
  have hhere : (t.read (.symbol b.closer)).here = s.here := by rw [read_here, hlinks]
  refine ⟨?_, ?_, fun _ => Nat.le_of_eq hhere.symm⟩
  · rw [read_outer, hlinks]
  · have hopener := s.toNesting.elseIfs_le_read (.symbol b.opener)
    have hcloser := t.toNesting.elseIfs_le_read (.symbol b.closer)
    exact Nat.le_trans hopener (Nat.le_trans helseIfs hcloser)

end Survey

open Survey

/-- Behind a bracketed stretch, what was pending in front of it still is. -/
theorem Bracketed.resumes {e : Extent} {ls : List Lexeme} (h : Bracketed e ls) (s : Survey) :
    Resumes e s (ls.foldl Survey.read s) := by
  induction h generalizing s with
  | nil => exact .refl
  | lexeme quiet => exact resumes_read quiet
  | @group e ls b _ ih =>
    have hinner := ih (s.read (.symbol b.opener))
    have houter : (s.read (.symbol b.opener)).outer = s.here :: s.outer := by
      rw [read_outer, links_opener]
    rw [List.cons_append, List.foldl_cons, List.foldl_append]
    exact resumes_closer b (hinner.outer_eq.trans houter) hinner.elseIfs_le
  | @attr e mark args hmark hargs =>
    have hbegin : ∃ t, (.symbol .hash :: mark).foldl Survey.read s = t ∧ Resumes e s t := by
      refine ⟨_, rfl, ?_⟩
      obtain rfl | rfl := hmark
      · exact resumes_hash s
      · exact (resumes_hash s).trans (resumes_read trivial)
    obtain ⟨t, ht, hresumes⟩ := hbegin
    have houter : (t.read (.symbol .leftBracket)).outer = [] ++ t.here :: t.outer := rfl
    -- behind the arguments it is the attribute's own bracket that is closed
    obtain ⟨hrest, hle⟩ := outer_arguments hargs houter rfl
    rw [List.foldl_append, List.foldl_append, ht, List.foldl_cons]
    exact hresumes.trans (resumes_closer .square hrest hle)
  | append _ _ ihleft ihright =>
    rw [List.foldl_append]
    exact (ihleft s).trans (ihright _)

/-! ### The bound -/

namespace Survey

/-- What is pending where a survey stands. In a series, the links since the last boundary do not
count. -/
def pending (s : Survey) : Extent → Nat
  | .phrase => s.outer.length + s.outer.sum + s.elseIfs + s.here
  | .series => s.outer.length + s.outer.sum + s.elseIfs

theorem pending_le_total {s : Survey} (h : s.Sound) (e : Extent) : s.pending e ≤ s.total := by
  have hopened := h.opened_eq
  have hle := h.opened_le
  have hlinks := h.links_le
  unfold total
  cases e <;> simp only [pending] <;> omega

theorem Resumes.pending_le {e : Extent} {s t : Survey} (h : Resumes e s t) :
    s.pending e ≤ t.pending e := by
  have houter := h.outer_eq
  have hle := h.elseIfs_le
  cases e with
  | phrase =>
    have hhere := h.here_le rfl
    simp only [pending, houter]
    omega
  | series =>
    simp only [pending, houter]
    omega

/-- A link, `else if` or another, adds to what is pending. -/
theorem pending_link (s : Survey) (e : Extent) {x : Lexeme} (hx : x.role = .link) :
    s.pending e + 1 ≤ (s.read x).pending .phrase := by
  have hwhole : s.pending e ≤ s.pending .phrase := by
    cases e
    · exact Nat.le_refl _
    · exact Nat.le_add_right _ _
  refine Nat.le_trans (Nat.succ_le_succ hwhole) ?_
  simp only [pending, read_here, read_outer]
  rw [read_toNesting, Nesting.read_elseIfs]
  simp only [links, hx]
  split <;> dsimp only <;> omega

/-- An opener adds to what is pending, and its bracket holds a series. -/
theorem pending_opener (s : Survey) (e : Extent) (b : Bracket) :
    s.pending e + 1 ≤ (s.read (.symbol b.opener)).pending .series := by
  have hle := s.toNesting.elseIfs_le_read (.symbol b.opener)
  rw [← read_toNesting] at hle
  have houter : (s.read (.symbol b.opener)).outer = s.here :: s.outer := by
    rw [read_outer, links_opener]
  cases e <;> simp only [pending, houter, List.length_cons, List.sum_cons] <;> omega

end Survey

/-- What is pending at a place of a text has been found by a survey of the text. -/
theorem Pending.le_total {e : Extent} {n : Nat} {ls : List Lexeme} (h : Pending e n ls)
    {s : Survey} (hs : s.Sound) : n + s.pending e ≤ (ls.foldl Survey.read s).total := by
  -- every lexeme that leaves something pending adds one to the survey, and closed brackets take
  -- none of it
  induction h generalizing s with
  | @start e ls =>
    have hpending := pending_le_total hs e
    have htotal := s.total_le_foldl ls
    omega
  | @past e n ls ms passed _ ih =>
    have hpending := (passed.resumes s).pending_le
    have htotal := ih (hs.foldl ls)
    rw [List.foldl_append]
    omega
  | @link e n x ls role _ ih =>
    have hpending := s.pending_link e role
    have htotal := ih (hs.read x)
    rw [List.foldl_cons]
    omega
  | @opener e n ls b _ ih =>
    have hpending := s.pending_opener e b
    have htotal := ih (hs.read (.symbol b.opener))
    rw [List.foldl_cons]
    omega

/-- No more openers and links are pending in a text than its nesting depth and its pending links
tell. -/
theorem Pending.le_depth {e : Extent} {n : Nat} {ls : List Lexeme} (h : Pending e n ls) :
    n ≤ nestingDepth ls + pendingLinks ls := by
  have hsound : Survey.Sound {} := ⟨rfl, Nat.le_refl _, Nat.le_refl _⟩
  have htotal := h.le_total hsound
  have hnesting := toNesting_foldl {} ls
  unfold Survey.total at htotal
  rw [hnesting] at htotal
  exact Nat.le_trans (Nat.le_add_right _ _) htotal

end EnsembleCompiler.Target
