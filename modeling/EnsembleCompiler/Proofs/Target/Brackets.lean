import EnsembleCompiler.Target.Nesting

/-!
# Bracketed lexemes

`Bracketed e ls`: the brackets of `ls` are those of groups that open and close in `ls`, where the
arguments of an attribute only have to open as many brackets as they close. `Pending e n ls`: at some
place of `ls`, `n` openers and links before it are still in force. A link is a lexeme behind which
a construct may go on inside itself although no bracket is opened, such as a prefix operator.
-/

namespace EnsembleCompiler.Target

/-! ### Roles of lexemes -/

/-- What a lexeme does to the nesting of a text. -/
inductive Role where
  | opener (b : Bracket)
  | closer (b : Bracket)
  /-- Begins an attribute. -/
  | hash
  /-- A construct may go on inside itself behind the lexeme. -/
  | link
  /-- Ends or begins a statement or an item. -/
  | boundary
  | plain
  deriving DecidableEq, Repr

def Symbol.role : Symbol → Role
  | leftParen => .opener .paren | leftBrace => .opener .brace | leftBracket => .opener .square
  | rightParen => .closer .paren | rightBrace => .closer .brace | rightBracket => .closer .square
  | hash => .hash
  | minus | bang | star | amp | andAnd => .link
  | eq | plusEq | minusEq | starEq | slashEq => .link
  | pipe | orOr | lt | pathSep => .link
  | semicolon => .boundary
  | _ => .plain

def Keyword.role : Keyword → Role
  | ifKw | returnKw => .link
  | fnKw | modKw | useKw | pubKw | constKw | letKw => .boundary
  | _ => .plain

def Lexeme.role : Lexeme → Role
  | .symbol s => s.role
  | .keyword k => k.role
  | _ => .plain

@[simp] theorem Bracket.role_opener (b : Bracket) : b.opener.role = .opener b := by cases b <;> rfl

@[simp] theorem Bracket.role_closer (b : Bracket) : b.closer.role = .closer b := by cases b <;> rfl

@[simp] theorem Lexeme.role_symbol (s : Symbol) : (Lexeme.symbol s).role = s.role := rfl

@[simp] theorem Lexeme.role_keyword (k : Keyword) : (Lexeme.keyword k).role = k.role := rfl

/-! ### Bracketed stretches -/

/-- What a stretch of lexemes may hold outside of brackets. -/
inductive Extent where
  /-- A part of one construct. -/
  | phrase
  /-- Constructs one after another, with the lexemes that separate them. -/
  | series
  deriving DecidableEq, Repr

/-- The lexeme may stand in a stretch without changing its nesting. -/
def Role.Quiet (e : Extent) : Role → Prop
  | .plain | .link => True
  | .boundary => e = .series
  | _ => False

theorem Role.Quiet.series {e : Extent} {r : Role} (h : r.Quiet e) : r.Quiet .series := by
  cases r <;> first | exact h | rfl

/-- From a depth of brackets, the lexemes lead back to depth zero and never below it. Brackets of
all kinds count alike. -/
def Nested : Nat → List Lexeme → Prop
  | depth, [] => depth = 0
  | depth, x :: ls =>
    match x.role with
    | .opener _ => Nested (depth + 1) ls
    | .closer _ => 0 < depth ∧ Nested (depth - 1) ls
    | _ => Nested depth ls

/-- The lexemes of a stretch whose brackets close where they should. -/
inductive Bracketed : Extent → List Lexeme → Prop where
  | nil {e} : Bracketed e []
  | lexeme {e x} (quiet : x.role.Quiet e) : Bracketed e [x]
  | group {e ls} {b : Bracket} (inner : Bracketed .series ls) :
      Bracketed e (.symbol b.opener :: ls ++ [Lexeme.symbol b.closer])
  | attr {e mark args} (hmark : mark = [] ∨ mark = [.symbol .bang]) (hargs : Nested 0 args) :
      Bracketed e
        (.symbol .hash :: mark ++ .symbol .leftBracket :: args ++ [Lexeme.symbol .rightBracket])
  | append {e ls ms} (left : Bracketed e ls) (right : Bracketed e ms) : Bracketed e (ls ++ ms)

namespace Bracketed

variable {e : Extent} {x : Lexeme} {ls ms : List Lexeme}

theorem cons (hx : x.role.Quiet e) (h : Bracketed e ls) : Bracketed e (x :: ls) :=
  (lexeme hx).append h

/-- A part of one construct is also a part of a series. -/
theorem loosen (h : Bracketed e ls) : Bracketed .series ls := by
  induction h with
  | nil => exact .nil
  | lexeme quiet => exact .lexeme quiet.series
  | group inner => exact .group inner
  | attr hmark hargs => exact .attr hmark hargs
  | append left right ihleft ihright => exact .append ihleft ihright

end Bracketed

theorem Nested.append {d j : Nat} {ls ms : List Lexeme} (h : Nested d ls) (k : Nested j ms) :
    Nested (d + j) (ls ++ ms) := by
  induction ls generalizing d with
  | nil =>
    obtain rfl : d = 0 := h
    rwa [Nat.zero_add]
  | cons x ls ih =>
    simp only [Nested, List.cons_append] at h ⊢
    split at h
    · have hnext := ih h
      rwa [Nat.add_right_comm] at hnext
    · obtain ⟨hpos, h⟩ := h
      have hnext := ih h
      rw [show d - 1 + j = d + j - 1 by omega] at hnext
      exact ⟨by omega, hnext⟩
    · exact ih h

theorem Nested.of_quiet {e : Extent} {x : Lexeme} (h : x.role.Quiet e) : Nested 0 [x] := by
  cases hrole : x.role <;> simp_all [Role.Quiet, Nested]

/-- Where brackets close as they should, as many are opened as are closed. -/
theorem Bracketed.nested {e : Extent} {ls : List Lexeme} (h : Bracketed e ls) : Nested 0 ls := by
  induction h with
  | nil => rfl
  | lexeme quiet => exact .of_quiet quiet
  | @group e ls b _ ih =>
    have hcloser : Nested 1 [.symbol b.closer] := by simp [Nested]
    have hinner := ih.append hcloser
    simpa [Nested] using hinner
  | @attr e mark args hmark hargs =>
    have hcloser : Nested 1 [.symbol .rightBracket] := by simp [Nested, Symbol.role]
    have hinner := hargs.append hcloser
    obtain rfl | rfl := hmark <;> simpa [Nested, Symbol.role] using hinner
  | append _ _ ihleft ihright => exact ihleft.append ihright

/-! ### Pending openers and links -/

/-- At some place of the lexemes, `n` openers and links before it are still in force. -/
inductive Pending : Extent → Nat → List Lexeme → Prop where
  | start {e ls} : Pending e 0 ls
  | past {e n ls ms} (passed : Bracketed e ls) (h : Pending e n ms) : Pending e n (ls ++ ms)
  | link {e n x ls} (role : x.role = .link) (h : Pending .phrase n ls) : Pending e (n + 1) (x :: ls)
  | opener {e n ls} {b : Bracket} (h : Pending .series n ls) : Pending e (n + 1) (.symbol b.opener :: ls)

theorem Pending.loosen {e : Extent} {n : Nat} {ls : List Lexeme} (h : Pending e n ls) :
    Pending .series n ls := by
  induction h with
  | start => exact .start
  | past passed _ ih => exact .past passed.loosen ih
  | link role h _ => exact .link role h
  | opener h _ => exact .opener h

theorem Pending.le_length {e : Extent} {n : Nat} {ls : List Lexeme} (h : Pending e n ls) :
    n ≤ ls.length := by
  induction h with
  | start => exact Nat.zero_le _
  | past _ _ ih =>
    rw [List.length_append]
    omega
  | link _ _ ih => exact Nat.succ_le_succ ih
  | opener _ ih => exact Nat.succ_le_succ ih

/-! ### Scanning with a stack -/

/-- Scans lexemes with the stack of the brackets that are open, where every closer has to close
the opener that was opened last. -/
def matchBrackets : List Bracket → List Lexeme → Option (List Bracket)
  | opened, [] => some opened
  | opened, x :: ls =>
    match x.role, opened with
    | .opener b, _ => matchBrackets (b :: opened) ls
    | .closer b, c :: rest => if b = c then matchBrackets rest ls else none
    | .closer _, [] => none
    | _, _ => matchBrackets opened ls

/-- Every closer closes the opener that was opened last, and no bracket stays open. -/
def WellBracketed (ls : List Lexeme) : Prop := matchBrackets [] ls = some []

instance (ls : List Lexeme) : Decidable (WellBracketed ls) := inferInstanceAs (Decidable (_ = _))

/-- A bracket that is open, by what may close it. -/
inductive Opener where
  | strict (b : Bracket)
  /-- The bracket of an attribute. -/
  | attr
  /-- A bracket among the arguments of an attribute. -/
  | argument
  deriving DecidableEq, Repr

def Opener.admits : Opener → Bracket → Bool
  | .strict b, c => b = c
  | .attr, c => c = .square
  | .argument, _ => true

/-- Whether lexemes behind these openers are arguments of an attribute. -/
def inAttribute : List Opener → Bool
  | .attr :: _ | .argument :: _ => true
  | _ => false

/-- Scans lexemes with a stack like `matchBrackets`, but a bracket among the arguments of an
attribute may be closed by a closer of any kind. `marked` says that a bracket that comes next
is that of an attribute. -/
def matchLeniently : List Opener → Bool → List Lexeme → Option (List Opener)
  | opened, _, [] => some opened
  | opened, marked, x :: ls =>
    match x.role, opened with
    | .opener b, _ =>
      let opener : Opener :=
        if inAttribute opened then .argument else if marked then .attr else .strict b
      matchLeniently (opener :: opened) false ls
    | .closer b, o :: rest => if o.admits b then matchLeniently rest false ls else none
    | .closer _, [] => none
    | .hash, _ => matchLeniently opened true ls
    | _, _ => matchLeniently opened (marked && x = .symbol .bang) ls

/-- Every closer closes the opener that was opened last, which is of its kind unless it stands
among the arguments of an attribute, and no bracket stays open. -/
def BracketedUpToArguments (ls : List Lexeme) : Prop := matchLeniently [] false ls = some []

instance (ls : List Lexeme) : Decidable (BracketedUpToArguments ls) :=
  inferInstanceAs (Decidable (_ = _))

section Scan

variable {e : Extent} {x : Lexeme} {ls rest : List Lexeme} {opened : List Opener} {marked : Bool}

theorem matchLeniently_quiet (hx : x.role.Quiet e) :
    matchLeniently opened false (x :: rest) = matchLeniently opened false rest := by
  cases hrole : x.role <;> rw [hrole] at hx <;> simp_all [matchLeniently, Role.Quiet]

theorem matchLeniently_opener {b : Bracket} (hout : inAttribute opened = false) :
    matchLeniently opened false (.symbol b.opener :: rest) =
      matchLeniently (.strict b :: opened) false rest := by
  simp [matchLeniently, hout]

theorem matchLeniently_closer {b : Bracket} :
    matchLeniently (.strict b :: opened) marked (.symbol b.closer :: rest) =
      matchLeniently opened false rest := by
  simp [matchLeniently, Opener.admits]

/-- The arguments of an attribute are passed over, with the brackets that they opened. -/
theorem matchLeniently_arguments {d : Nat} (h : Nested d ls) (opened : List Opener)
    (rest : List Lexeme) (marked : Bool) : ∃ marked',
      matchLeniently (List.replicate d .argument ++ .attr :: opened) marked (ls ++ rest) =
        matchLeniently (.attr :: opened) marked' rest := by
  -- on top of the stack lie as many openers as arguments are open, whatever their kinds
  induction ls generalizing d marked with
  | nil =>
    obtain rfl : d = 0 := h
    exact ⟨marked, rfl⟩
  | cons x ls ih =>
    have hin : inAttribute (List.replicate d Opener.argument ++ .attr :: opened) = true := by
      cases d <;> rfl
    simp only [Nested] at h
    cases hrole : x.role with
    | opener b =>
      rw [hrole] at h
      obtain ⟨marked', hscan⟩ := ih h false
      refine ⟨marked', ?_⟩
      rw [← hscan]
      simp [matchLeniently, hrole, hin, List.replicate_succ]
    | closer b =>
      rw [hrole] at h
      obtain ⟨hpos, h⟩ := h
      obtain ⟨marked', hscan⟩ := ih h false
      refine ⟨marked', ?_⟩
      rw [← hscan]
      obtain ⟨d, rfl⟩ : ∃ d', d = d' + 1 := ⟨d - 1, by omega⟩
      simp [matchLeniently, hrole, List.replicate_succ, Opener.admits]
    | hash =>
      rw [hrole] at h
      obtain ⟨marked', hscan⟩ := ih h true
      exact ⟨marked', by rw [← hscan]; simp [matchLeniently, hrole]⟩
    | link | boundary | plain =>
      rw [hrole] at h
      obtain ⟨marked', hscan⟩ := ih h (marked && x = .symbol .bang)
      exact ⟨marked', by rw [← hscan]; simp [matchLeniently, hrole]⟩

/-- Outside of attributes, a bracketed stretch leaves the stack as it was. -/
theorem Bracketed.scan (h : Bracketed e ls) (hout : inAttribute opened = false) :
    matchLeniently opened false (ls ++ rest) = matchLeniently opened false rest := by
  induction h generalizing opened rest with
  | nil => rfl
  | lexeme quiet => exact matchLeniently_quiet quiet
  | @group e ls b _ ih =>
    have hinside : inAttribute (.strict b :: opened) = false := rfl
    rw [List.cons_append, List.cons_append, List.append_assoc, matchLeniently_opener hout,
      ih hinside, List.singleton_append, matchLeniently_closer]
  | @attr e mark args hmark hargs =>
    obtain ⟨marked', hscan⟩ :=
      matchLeniently_arguments hargs opened (.symbol .rightBracket :: rest) false
    have hclose : matchLeniently (.attr :: opened) marked'
        (.symbol .rightBracket :: rest) = matchLeniently opened false rest := rfl
    rw [List.replicate_zero, List.nil_append, hclose] at hscan
    rw [← hscan]
    obtain rfl | rfl := hmark <;> simp [matchLeniently, Symbol.role, hout]
  | append _ _ ihleft ihright =>
    rw [List.append_assoc, ihleft hout, ihright hout]

theorem Bracketed.upToArguments (h : Bracketed e ls) : BracketedUpToArguments ls := by
  have hscan : matchLeniently [] false (ls ++ []) = matchLeniently [] false [] :=
    h.scan rfl
  rw [List.append_nil] at hscan
  exact hscan

/-- Without attributes, both ways to scan are one. -/
theorem matchLeniently_strict (hls : .symbol .hash ∉ ls) (opened : List Bracket) :
    matchLeniently (opened.map .strict) false ls = (matchBrackets opened ls).map (·.map .strict) := by
  have hrole : ∀ y : Lexeme, y ≠ .symbol .hash → y.role ≠ .hash := by
    rintro (k | w | s | v | v | t | n) hy
    · cases k <;> simp [Keyword.role]
    · exact Role.noConfusion
    · cases s <;> simp_all [Symbol.role]
    all_goals exact Role.noConfusion
  -- nothing on the stack is an attribute, as none begins
  have hout : ∀ bs : List Bracket, inAttribute (bs.map .strict) = false := by
    intro bs
    cases bs <;> rfl
  induction ls generalizing opened with
  | nil => rfl
  | cons x ls ih =>
    obtain ⟨hx, hls⟩ : .symbol .hash ≠ x ∧ .symbol .hash ∉ ls := by simpa using hls
    have hne := hrole x (Ne.symm hx)
    cases hr : x.role with
    | opener b => simpa [matchLeniently, matchBrackets, hr, hout] using ih hls (b :: opened)
    | closer b =>
      cases opened with
      | nil => simp [matchLeniently, matchBrackets, hr]
      | cons c rest =>
        by_cases hbc : c = b
        · simpa [matchLeniently, matchBrackets, hr, Opener.admits, hbc] using ih hls rest
        · simp [matchLeniently, matchBrackets, hr, Opener.admits, hbc, Ne.symm hbc]
    | hash => exact absurd hr hne
    | link | boundary | plain => simpa [matchLeniently, matchBrackets, hr] using ih hls opened

/-- A bracketed stretch without attributes is bracketed in the strict sense. -/
theorem Bracketed.wellBracketed (h : Bracketed e ls) (hls : .symbol .hash ∉ ls) :
    WellBracketed ls := by
  have hscan := matchLeniently_strict hls []
  rw [List.map_nil, h.upToArguments] at hscan
  cases hstrict : matchBrackets [] ls with
  | none => simp [hstrict] at hscan
  | some bs =>
    rw [hstrict] at hscan
    have hnil : bs = [] := by simpa using hscan.symm
    rw [WellBracketed, hstrict, hnil]

end Scan

end EnsembleCompiler.Target
