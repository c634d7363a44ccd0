import EnsembleCompiler.Proofs.Target.Erasure
import EnsembleCompiler.Proofs.Target.Writing

/-!
# How operators group

A row is a sequence of operands with binary operators between them, without brackets. There is
exactly one tree that reads as the row and groups it by the powers of its operators, and its root is
the last of the operators that bind least.
-/

namespace EnsembleCompiler.Target

variable {σ : Type}

/-! ### Rows -/

/-- A literal or a name. -/
inductive Atom where
  | literal (value : Literal)
  | name (text : String)

/-- An atom with the operators that stand before it. -/
structure Operand where
  signs : List UnaryOp
  atom : Atom

/-- An operand, and further ones with the operator before each. -/
structure Row where
  first : Operand
  further : List (BinaryOp × Operand)

def Atom.lexeme : Atom → Lexeme
  | literal value => value.lexeme
  | name text => .ident text

def Operand.lexemes (u : Operand) : List Lexeme :=
  u.signs.flatMap UnaryOp.lexemes ++ [u.atom.lexeme]

/-- The lexemes of operands with the operator before each. -/
def furtherLexemes (xs : List (BinaryOp × Operand)) : List Lexeme :=
  xs.flatMap fun x => .symbol x.1.symbol :: x.2.lexemes

namespace Row

def lexemes (row : Row) : List Lexeme := row.first.lexemes ++ furtherLexemes row.further

def operators (row : Row) : List BinaryOp := row.further.map (·.1)

end Row

/-- Two comparisons stand in the row without an `&&` or `||` between them. -/
def Chained (ops : List BinaryOp) : Prop :=
  ∃ (before : List BinaryOp) (op : BinaryOp) (between : List BinaryOp) (other : BinaryOp)
    (after : List BinaryOp), ops = before ++ op :: (between ++ other :: after) ∧
    op.isComparison = true ∧ other.isComparison = true ∧ ∀ o ∈ between, o ≠ .and ∧ o ≠ .or

/-! ### Trees -/

namespace Expr

/-- The binary operator at the root of a tree. -/
def root? : Expr σ → Option BinaryOp
  | .binary _ op _ _ => some op
  | _ => none

/-- A tree read in order, from left to right. -/
def reading : Expr σ → List Lexeme
  | .path _ [name] => [.ident name]
  | .unary _ op operand => op.lexemes ++ operand.reading
  | .binary _ op left right => left.reading ++ .symbol op.symbol :: right.reading
  | e => e.lexemes

/-- A tree of literals, names and operators that follows the powers of the operators: prefix
operators bind most tightly, and no binary operator binds its left operand more tightly than the
operator in it, or its right operand as tightly. -/
inductive Grouped : Expr σ → Prop
  | literal {place : σ} {value : Literal} : Grouped (.literal place value)
  | name {place : σ} {text : String} : Grouped (.path place [text])
  | unary {place : σ} {op : UnaryOp} {e : Expr σ} : e.root? = none → Grouped e →
      Grouped (.unary place op e)
  | binary {place : σ} {op : BinaryOp} {left right : Expr σ} :
      (∀ o ∈ left.root?, op.power ≤ o.power) → (∀ o ∈ right.root?, op.power < o.power) →
      Grouped left → Grouped right → Grouped (.binary place op left right)

end Expr

/-- The tree groups the row: every binary node splits it at the last of the operators that bind
least. -/
inductive Groups : Operand → List (BinaryOp × Operand) → Expr σ → Prop
  | literal {place : σ} {value : Literal} : Groups ⟨[], .literal value⟩ [] (.literal place value)
  | name {place : σ} {text : String} : Groups ⟨[], .name text⟩ [] (.path place [text])
  | unary {place : σ} {op : UnaryOp} {signs : List UnaryOp} {atom : Atom} {e : Expr σ} :
      Groups ⟨signs, atom⟩ [] e → Groups ⟨op :: signs, atom⟩ [] (.unary place op e)
  | binary {place : σ} {op : BinaryOp} {u v : Operand} {xs ys : List (BinaryOp × Operand)}
      {left right : Expr σ} : (∀ x ∈ xs, op.power ≤ x.1.power) → (∀ y ∈ ys, op.power < y.1.power) →
      Groups u xs left → Groups v ys right →
      Groups u (xs ++ (op, v) :: ys) (.binary place op left right)

section Lexemes

/-! ### Rows are determined by their lexemes -/

@[simp] theorem furtherLexemes_nil : furtherLexemes [] = [] := rfl

@[simp] theorem furtherLexemes_cons (op : BinaryOp) (u : Operand) (xs : List (BinaryOp × Operand)) :
    furtherLexemes ((op, u) :: xs) = .symbol op.symbol :: (u.lexemes ++ furtherLexemes xs) := rfl

@[simp] theorem furtherLexemes_append (xs ys : List (BinaryOp × Operand)) :
    furtherLexemes (xs ++ ys) = furtherLexemes xs ++ furtherLexemes ys :=
  List.flatMap_append

@[simp] theorem Operand.lexemes_nil (atom : Atom) : Operand.lexemes ⟨[], atom⟩ = [atom.lexeme] := rfl

@[simp] theorem Operand.lexemes_cons (op : UnaryOp) (signs : List UnaryOp) (atom : Atom) :
    Operand.lexemes ⟨op :: signs, atom⟩ = op.lexemes ++ Operand.lexemes ⟨signs, atom⟩ := by
  simp [Operand.lexemes]

theorem Atom.lexeme_inj {a b : Atom} (h : a.lexeme = b.lexeme) : a = b := by
  rcases a with (_ | _ | (_ | _) | _) | _ <;> rcases b with (_ | _ | (_ | _) | _) | _ <;>
    simp_all [Atom.lexeme, Literal.lexeme]

theorem BinaryOp.symbol_inj {a b : BinaryOp} (h : a.symbol = b.symbol) : a = b := by
  cases a <;> cases b <;> first | rfl | cases h

theorem Atom.lexeme_ne_symbol (a : Atom) (s : Symbol) : a.lexeme ≠ .symbol s := by
  rcases a with (_ | _ | (_ | _) | _) | _ <;> simp [Atom.lexeme, Literal.lexeme]

theorem Atom.lexeme_ne_mut (a : Atom) : a.lexeme ≠ .keyword .mutKw := by
  rcases a with (_ | _ | (_ | _) | _) | _ <;> simp [Atom.lexeme, Literal.lexeme]

/-- No operand begins with `mut`, so that one behind `&` belongs to it. -/
theorem Operand.head_ne_mut (u : Operand) (rest : List Lexeme) :
    (u.lexemes ++ rest).head? ≠ some (Lexeme.keyword .mutKw) := by
  obtain ⟨_ | ⟨op, signs⟩, atom⟩ := u
  · simpa using atom.lexeme_ne_mut
  · cases op <;> simp [UnaryOp.lexemes]

/-- An operator before an operand is determined by its lexemes. -/
theorem UnaryOp.lexemes_inj {op op' : UnaryOp} {ls ls' : List Lexeme}
    (hls : ls.head? ≠ some (Lexeme.keyword .mutKw)) (hls' : ls'.head? ≠ some (Lexeme.keyword .mutKw))
    (h : op.lexemes ++ ls = op'.lexemes ++ ls') : op = op' ∧ ls = ls' := by
  rcases op with _ | _ | _ | (_ | _) <;> rcases op' with _ | _ | _ | (_ | _) <;>
    simp [UnaryOp.lexemes, mutLexemes] at h ⊢ <;> subst h <;> simp_all

theorem Operand.lexemes_inj {u v : Operand} {ls ls' : List Lexeme}
    (h : u.lexemes ++ ls = v.lexemes ++ ls') : u = v ∧ ls = ls' := by
  obtain ⟨signs, atom⟩ := u
  obtain ⟨signs', atom'⟩ := v
  -- no atom begins like a prefix operator, so the numbers of operators agree
  have hsign : ∀ (atom : Atom) (op : UnaryOp) (ls ls' : List Lexeme),
      atom.lexeme :: ls ≠ op.lexemes ++ ls' := by
    intro atom op ls ls' h
    cases op <;> exact atom.lexeme_ne_symbol _ (List.cons.inj h).1
  induction signs generalizing signs' with
  | nil =>
    cases signs' with
    | nil =>
      obtain ⟨hatom, hls⟩ := List.cons.inj h
      obtain rfl := Atom.lexeme_inj hatom
      exact ⟨rfl, hls⟩
    | cons op signs' =>
      rw [lexemes_cons, List.append_assoc] at h
      exact absurd h (hsign _ _ _ _)
  | cons op signs ih =>
    cases signs' with
    | nil =>
      rw [lexemes_cons, List.append_assoc] at h
      exact absurd h.symm (hsign _ _ _ _)
    | cons op' signs' =>
      rw [lexemes_cons, lexemes_cons, List.append_assoc, List.append_assoc] at h
      obtain ⟨rfl, hrest⟩ := UnaryOp.lexemes_inj (head_ne_mut _ _) (head_ne_mut _ _) h
      obtain ⟨hoperand, hls⟩ := ih signs' hrest
      cases hoperand
      exact ⟨rfl, hls⟩

theorem furtherLexemes_inj {xs ys : List (BinaryOp × Operand)}
    (h : furtherLexemes xs = furtherLexemes ys) : xs = ys := by
  induction xs generalizing ys with
  | nil =>
    cases ys with
    | nil => rfl
    | cons y ys => cases h
  | cons x xs ih =>
    cases ys with
    | nil => cases h
    | cons y ys =>
      obtain ⟨hsymbol, hrest⟩ := List.cons.inj h
      obtain ⟨hoperand, hrest⟩ := Operand.lexemes_inj hrest
      rw [ih hrest, Prod.ext (BinaryOp.symbol_inj (Lexeme.symbol.inj hsymbol)) hoperand]

/-- Two rows of the same lexemes are the same. -/
theorem Row.lexemes_inj {row other : Row} (h : row.lexemes = other.lexemes) : row = other := by
  obtain ⟨hfirst, hfurther⟩ := Operand.lexemes_inj h
  cases row
  cases other
  rw [Row.mk.injEq]
  exact ⟨hfirst, furtherLexemes_inj hfurther⟩

end Lexemes

/-! ### Trees that group a row -/

namespace Groups

variable {u : Operand} {xs : List (BinaryOp × Operand)} {e : Expr σ}

/-- An operand by itself has no binary operator at its root. -/
theorem root?_eq_none (h : Groups u [] e) : e.root? = none := by
  generalize hxs : ([] : List (BinaryOp × Operand)) = xs at h
  cases h with
  | literal | name | unary => rfl
  | binary => simp at hxs

/-- The operator at the root is one of the row. -/
theorem root?_mem (h : Groups u xs e) : ∀ op ∈ e.root?, ∃ x ∈ xs, x.1 = op := by
  cases h with
  | literal | name | unary => simp [Expr.root?]
  | @binary _ op _ v => exact fun o ho => ⟨(op, v), by simp, Option.some.inj ho⟩

/-- No operator of the row binds less than the one at the root. -/
theorem root?_le (h : Groups u xs e) : ∀ x ∈ xs, ∃ op ∈ e.root?, op.power ≤ x.1.power := by
  cases h with
  | literal | name | unary => simp
  | @binary place op _ v xs ys left right hxs hys =>
    intro x hx
    refine ⟨op, rfl, ?_⟩
    rcases List.mem_append.1 hx with hx | hx
    · exact hxs x hx
    rcases List.mem_cons.1 hx with rfl | hx
    · exact Nat.le_refl _
    · exact Nat.le_of_lt (hys x hx)

theorem grouped (h : Groups u xs e) : e.Grouped := by
  induction h with
  | literal => exact .literal
  | name => exact .name
  | unary h ih => exact .unary h.root?_eq_none ih
  | binary hxs hys hl hr ihl ihr =>
    refine .binary (fun o ho => ?_) (fun o ho => ?_) ihl ihr
    · obtain ⟨x, hx, rfl⟩ := hl.root?_mem o ho
      exact hxs x hx
    · obtain ⟨y, hy, rfl⟩ := hr.root?_mem o ho
      exact hys y hy

theorem reading_eq (h : Groups u xs e) : e.reading = Row.lexemes ⟨u, xs⟩ := by
  induction h with
  | literal => simp [Expr.reading, Expr.lexemes, Row.lexemes, Atom.lexeme]
  | name => simp [Expr.reading, Row.lexemes, Atom.lexeme]
  | unary h ih => simpa [Expr.reading, Row.lexemes] using ih
  | binary hxs hys hl hr ihl ihr => simp [Expr.reading, ihl, ihr, Row.lexemes]

end Groups

/-- A tree that follows the powers of its operators groups the row of its reading. -/
theorem Expr.Grouped.groups {e : Expr σ} (h : e.Grouped) : ∃ u xs, Groups u xs e := by
  induction h with
  | literal => exact ⟨_, _, .literal⟩
  | name => exact ⟨_, _, .name⟩
  | unary hroot _ ih =>
    obtain ⟨⟨signs, atom⟩, xs, he⟩ := ih
    obtain rfl : xs = [] := by
      refine List.eq_nil_iff_forall_not_mem.2 fun x hx => ?_
      obtain ⟨op, hop, -⟩ := he.root?_le x hx
      rw [hroot] at hop
      cases hop
    exact ⟨_, _, .unary he⟩
  | binary hleft hright _ _ ihl ihr =>
    obtain ⟨u, xs, hl⟩ := ihl
    obtain ⟨v, ys, hr⟩ := ihr
    refine ⟨u, _, .binary (fun x hx => ?_) (fun y hy => ?_) hl hr⟩
    · obtain ⟨o, ho, hle⟩ := hl.root?_le x hx
      exact Nat.le_trans (hleft o ho) hle
    · obtain ⟨o, ho, hle⟩ := hr.root?_le y hy
      exact Nat.lt_of_lt_of_le (hright o ho) hle

theorem groups_iff {u : Operand} {xs : List (BinaryOp × Operand)} {e : Expr σ} :
    Groups u xs e ↔ e.Grouped ∧ e.reading = Row.lexemes ⟨u, xs⟩ := by
  constructor
  · intro h
    exact ⟨h.grouped, h.reading_eq⟩
  · rintro ⟨hgrouped, hreading⟩
    obtain ⟨v, ys, h⟩ := hgrouped.groups
    cases Row.lexemes_inj (h.reading_eq.symm.trans hreading)
    exact h

/-- Operators split at the last one that binds least. -/
theorem exists_split {xs : List (BinaryOp × Operand)} (hne : xs ≠ []) :
    ∃ (as : List (BinaryOp × Operand)) (op : BinaryOp) (v : Operand) (bs : List (BinaryOp × Operand)),
      xs = as ++ (op, v) :: bs ∧ (∀ a ∈ as, op.power ≤ a.1.power) ∧
      ∀ b ∈ bs, op.power < b.1.power := by
  induction xs with
  | nil => exact absurd rfl hne
  | cons x xs ih =>
    by_cases hxs : xs = []
    · exact ⟨[], x.1, x.2, [], by rw [hxs]; rfl, by simp, by simp⟩
    obtain ⟨as, op, v, bs, rfl, has, hbs⟩ := ih hxs
    by_cases hle : op.power ≤ x.1.power
    · exact ⟨x :: as, op, v, bs, rfl, List.forall_mem_cons.2 ⟨hle, has⟩, hbs⟩
    · refine ⟨[], x.1, x.2, _, rfl, by simp, fun b hb => ?_⟩
      have hlt : x.1.power < op.power := Nat.lt_of_not_le hle
      rcases List.mem_append.1 hb with hb | hb
      · exact Nat.lt_of_lt_of_le hlt (has b hb)
      rcases List.mem_cons.1 hb with rfl | hb
      · exact hlt
      · exact Nat.lt_trans hlt (hbs b hb)

/-- They split there only. -/
theorem split_unique {as as' bs bs' : List (BinaryOp × Operand)} {op op' : BinaryOp}
    {v v' : Operand} (h : as ++ (op, v) :: bs = as' ++ (op', v') :: bs')
    (has : ∀ a ∈ as, op.power ≤ a.1.power) (hbs : ∀ b ∈ bs, op.power < b.1.power)
    (has' : ∀ a ∈ as', op'.power ≤ a.1.power) (hbs' : ∀ b ∈ bs', op'.power < b.1.power) :
    as = as' ∧ (op, v) = (op', v') ∧ bs = bs' := by
  rcases List.append_eq_append_iff.1 h with
    ⟨_ | ⟨_, more⟩, rfl, hrest⟩ | ⟨_ | ⟨_, more⟩, rfl, hrest⟩
  · simp_all
  -- of two different places, each operator would have to bind less than the other one
  · obtain ⟨rfl, rfl⟩ := List.cons.inj hrest
    have hle : op'.power ≤ op.power := has' (op, v) (by simp)
    have hlt : op.power < op'.power := hbs (op', v') (by simp)
    omega
  · simp_all
  · obtain ⟨rfl, rfl⟩ := List.cons.inj hrest
    have hle : op.power ≤ op'.power := has (op', v') (by simp)
    have hlt : op'.power < op.power := hbs' (op, v) (by simp)
    omega

theorem exists_groups_operand (u : Operand) : ∃ e : Expr Unit, Groups u [] e := by
  obtain ⟨signs, atom⟩ := u
  induction signs with
  | nil =>
    cases atom with
    | literal value => exact ⟨.literal () value, .literal⟩
    | name text => exact ⟨.path () [text], .name⟩
  | cons op signs ih =>
    obtain ⟨e, he⟩ := ih
    exact ⟨.unary () op e, .unary he⟩

/-- Every row is grouped by a tree. -/
theorem exists_groups (u : Operand) (xs : List (BinaryOp × Operand)) :
    ∃ e : Expr Unit, Groups u xs e := by
  induction hlength : xs.length using Nat.strongRecOn generalizing u xs with
  | _ length ih =>
    by_cases hxs : xs = []
    · rw [hxs]
      exact exists_groups_operand u
    obtain ⟨as, op, v, bs, rfl, has, hbs⟩ := exists_split hxs
    rw [List.length_append, List.length_cons] at hlength
    obtain ⟨left, hl⟩ := ih as.length (by omega) u as rfl
    obtain ⟨right, hr⟩ := ih bs.length (by omega) v bs rfl
    exact ⟨.binary () op left right, .binary has hbs hl hr⟩

/-- Trees that group the same row differ in their places only. -/
theorem Groups.unique {τ : Type} {u v : Operand} {xs ys : List (BinaryOp × Operand)} {e : Expr σ}
    {f : Expr τ} (h : Groups u xs e) (h' : Groups v ys f) (huv : u = v) (hxs : xs = ys) :
    e.erase = f.erase := by
  induction h generalizing v ys f with
  | literal => cases h' <;> simp_all [Expr.erase, Expr.map]
  | name => cases h' <;> simp_all [Expr.erase, Expr.map]
  | unary he ih =>
    cases h' with
    | literal | name => simp at huv
    | binary => simp at hxs
    | unary he' =>
      simp only [Operand.mk.injEq, List.cons.injEq] at huv
      obtain ⟨⟨rfl, rfl⟩, rfl⟩ := huv
      have herase := ih he' rfl rfl
      simpa [Expr.erase, Expr.map] using herase
  | binary has hbs hl hr ihl ihr =>
    cases h' with
    | literal | name | unary => simp at hxs
    | binary has' hbs' hl' hr' =>
      -- both trees have the same operator at their roots, for a row splits in one way
      obtain ⟨rfl, hop, rfl⟩ := split_unique hxs has hbs has' hbs'
      cases hop
      have hleft := ihl hl' huv rfl
      have hright := ihr hr' rfl rfl
      simp only [Expr.erase, Expr.map] at hleft hright ⊢
      rw [hleft, hright]

/-! ### Chains of comparisons -/

/-- Operators stay chained when others are put around them. -/
theorem Chained.append {ops : List BinaryOp} (h : Chained ops) (before after : List BinaryOp) :
    Chained (before ++ (ops ++ after)) := by
  obtain ⟨front, op, between, other, back, rfl, hop, hother, hbetween⟩ := h
  exact ⟨before ++ front, op, between, other, back ++ after, by simp, hop, hother, hbetween⟩

theorem not_chained_nil : ¬ Chained [] := by
  rintro ⟨front, op, between, other, back, h, -⟩
  simp at h

theorem BinaryOp.isComparison_iff {op : BinaryOp} : op.isComparison = true ↔ op.power = 6 := by
  cases op <;> simp [isComparison, power]

/-- The operators that may stand between two comparisons bind less than these. -/
theorem BinaryOp.logical_iff {op : BinaryOp} : op ≠ .and ∧ op ≠ .or ↔ 6 ≤ op.power := by
  cases op <;> simp [power]

/-- Where operators split at the last one that binds least, they are chained on one of its sides, or
it is a comparison behind another one. -/
theorem chained_split {as bs : List BinaryOp} {op : BinaryOp} (has : ∀ a ∈ as, op.power ≤ a.power)
    (hbs : ∀ b ∈ bs, op.power < b.power) :
    Chained (as ++ op :: bs) ↔
      Chained as ∨ (op.isComparison = true ∧ ∃ a ∈ as, a.isComparison = true) ∨ Chained bs := by
  constructor
  · rintro ⟨front, c, between, d, back, heq, hc, hd, hbetween⟩
    -- a comparison among `bs` binds more tightly than `op`, which therefore is logical
    have hlogical : d ∈ bs → ¬ 6 ≤ op.power := by
      intro hmem hle
      have hlt := hbs d hmem
      rw [BinaryOp.isComparison_iff.1 hd] at hlt
      omega
    have hsix : ∀ {o : BinaryOp}, o.isComparison = true → 6 ≤ o.power := fun h =>
      Nat.le_of_eq (BinaryOp.isComparison_iff.1 h).symm
    rcases List.append_eq_append_iff.1 heq with
      ⟨_ | ⟨_, more⟩, rfl, hrest⟩ | ⟨_ | ⟨_, more⟩, rfl, hrest⟩
    · obtain ⟨rfl, rfl⟩ := List.cons.inj hrest
      exact absurd (hsix hc) (hlogical (by simp))
    · obtain ⟨rfl, rfl⟩ := List.cons.inj hrest
      exact .inr (.inr ⟨more, c, between, d, back, rfl, hc, hd, hbetween⟩)
    · obtain ⟨rfl, rfl⟩ := List.cons.inj hrest
      exact absurd (hsix hc) (hlogical (by simp))
    obtain ⟨rfl, hbehind⟩ := List.cons.inj hrest
    rcases List.append_eq_append_iff.1 hbehind with
      ⟨_ | ⟨_, further⟩, rfl, htail⟩ | ⟨_ | ⟨_, further⟩, rfl, htail⟩
    · obtain ⟨rfl, rfl⟩ := List.cons.inj htail
      exact .inr (.inl ⟨hd, c, by simp, hc⟩)
    · obtain ⟨rfl, rfl⟩ := List.cons.inj htail
      exact .inl ⟨front, c, between, d, further, by simp, hc, hd, hbetween⟩
    · obtain ⟨rfl, rfl⟩ := List.cons.inj htail
      exact .inr (.inl ⟨hd, c, by simp, hc⟩)
    · obtain ⟨rfl, rfl⟩ := List.cons.inj htail
      have hop : 6 ≤ op.power := BinaryOp.logical_iff.1 (hbetween op (by simp))
      exact absurd hop (hlogical (by simp))
  · rintro (h | ⟨hop, a, ha, hcomparison⟩ | h)
    · exact h.append [] (op :: bs)
    · obtain ⟨front, between, rfl⟩ := List.append_of_mem ha
      refine ⟨front, a, between, op, bs, by simp, hcomparison, hop, fun o ho => ?_⟩
      rw [BinaryOp.logical_iff, ← BinaryOp.isComparison_iff.1 hop]
      exact has o (by simp [ho])
    · simpa using h.append (as ++ [op]) []

/-- A comparison comes before any `&&` or `||`. -/
def ComparesFirst (ops : List BinaryOp) : Prop :=
  ∃ (between : List BinaryOp) (other : BinaryOp) (after : List BinaryOp),
    ops = between ++ other :: after ∧ other.isComparison = true ∧
    ∀ o ∈ between, o ≠ .and ∧ o ≠ .or

theorem comparesFirst_cons (op : BinaryOp) (ops : List BinaryOp) : ComparesFirst (op :: ops) ↔
    op.isComparison = true ∨ (op ≠ .and ∧ op ≠ .or) ∧ ComparesFirst ops := by
  constructor
  · rintro ⟨_ | ⟨o, between⟩, other, after, heq, hother, hbetween⟩
    · obtain ⟨rfl, rfl⟩ := List.cons.inj heq
      exact .inl hother
    · obtain ⟨rfl, rfl⟩ := List.cons.inj heq
      obtain ⟨hop, hbetween⟩ := List.forall_mem_cons.1 hbetween
      exact .inr ⟨hop, between, other, after, rfl, hother, hbetween⟩
  · rintro (hop | ⟨hop, between, other, after, rfl, hother, hbetween⟩)
    · exact ⟨[], op, ops, rfl, hop, by simp⟩
    · exact ⟨op :: between, other, after, rfl, hother, List.forall_mem_cons.2 ⟨hop, hbetween⟩⟩

theorem chained_cons (op : BinaryOp) (ops : List BinaryOp) : Chained (op :: ops) ↔
    (op.isComparison = true ∧ ComparesFirst ops) ∨ Chained ops := by
  constructor
  · rintro ⟨_ | ⟨o, before⟩, c, between, other, after, heq, hc, hother, hbetween⟩
    · obtain ⟨rfl, rfl⟩ := List.cons.inj heq
      exact .inl ⟨hc, between, other, after, rfl, hother, hbetween⟩
    · obtain ⟨rfl, rfl⟩ := List.cons.inj heq
      exact .inr ⟨before, c, between, other, after, rfl, hc, hother, hbetween⟩
  · rintro (⟨hop, between, other, after, rfl, hother, hbetween⟩ | h)
    · exact ⟨[], op, between, other, after, rfl, hop, hother, hbetween⟩
    · simpa using h.append [op] []

theorem not_comparesFirst_nil : ¬ ComparesFirst [] := by
  rintro ⟨between, other, after, h, -⟩
  simp at h

instance ComparesFirst.decidable : (ops : List BinaryOp) → Decidable (ComparesFirst ops)
  | [] => .isFalse not_comparesFirst_nil
  | op :: ops =>
    have := ComparesFirst.decidable ops
    decidable_of_iff _ (comparesFirst_cons op ops).symm

instance Chained.decidable : (ops : List BinaryOp) → Decidable (Chained ops)
  | [] => .isFalse not_chained_nil
  | op :: ops =>
    have := Chained.decidable ops
    decidable_of_iff _ (chained_cons op ops).symm

example : Chained [.lt, .add, .eq] ∧ ¬ Chained [.lt, .and, .add, .eq, .or, .ge] := by decide

end EnsembleCompiler.Target
