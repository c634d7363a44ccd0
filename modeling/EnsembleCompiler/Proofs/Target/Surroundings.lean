import EnsembleCompiler.Proofs.Target.Erasure
import EnsembleCompiler.Proofs.Target.Reading

/-!
# A logic for the surroundings of what is read

The same lexemes may be read twice: with places of two types, with other lexemes in front of them
and behind them, and with more levels of recursion. `Mirrors v N R p q`: in front of a lexeme that
satisfies `N`, what `p` reads `q` reads in the surroundings `v`, with a value that `R` relates to
that of `p`, if what is left hides the lexemes behind it. `Seals` says the same whatever is left:
the last lexeme that was read hides them. Where no lexemes are added, `q` also fails where and as
`p` does, unless `p` was exhausted and `q` has more levels. Each primitive has a rule.

The same rules carry where a block can be found to be open: only at the end of the lexemes.
-/

namespace EnsembleCompiler.Target

open Target.Parser

variable {α β γ δ κ ι σ τ : Type} [Places σ] [Places τ]

/-- What a second reading adds to a first: how many more lexemes stand in front, which stand
behind, and how many more levels of recursion there are; and what it makes of a place. -/
structure Surroundings (σ τ : Type) [Places σ] [Places τ] where
  before : Nat
  behind : List Lexeme
  levels : Nat
  place : σ → τ
  place_token : ∀ i, place (Places.token i) = Places.token (i + before)
  place_before : ∀ i, place (Places.before i) = Places.before (i + before)
  place_merge : ∀ r s, place (Places.merge r s) = Places.merge (place r) (place s)

/-- A cursor in the surroundings of its lexemes. -/
def Cursor.within (v : Surroundings σ τ) (c : Cursor) : Cursor :=
  ⟨c.position + v.before, c.rest ++ v.behind⟩

/-- The lexemes that end an item or an attribute. No parser looks at what follows one of them before
it has passed over it. -/
def Lexeme.isFinal : Lexeme → Bool
  | .symbol s => s ∈ [.semicolon, .rightBrace, .rightBracket]
  | _ => false

/-- Lexemes that hide what stands behind them: two of them, or a final one. -/
def Hides (v : Surroundings σ τ) (ls : List Lexeme) : Prop :=
  v.behind = [] ∨ 2 ≤ ls.length ∨ ∃ x, ls = [x] ∧ x.isFinal = true

/-- A failure of the first reading is one of the second: no lexemes are added, and levels of
recursion only where they were not what was missing. -/
structure Surroundings.Repeats (v : Surroundings σ τ) (cause : SyntaxCause) : Prop where
  before_eq : v.before = 0
  behind_eq : v.behind = []
  levels_eq : cause = .exhausted → v.levels = 0

/-- The parser `q` fails in the surroundings `v` as `p` does, and `p` finds no block open except at
the end of the lexemes. -/
structure Refuses (v : Surroundings σ τ) (N : Option Lexeme → Prop) (p : Parser α)
    (q : Parser β) : Prop where
  blames : ∀ {c i opener}, N c.rest[0]? → p.run c = .failed i (.openBlock opener) →
    i = c.position + c.rest.length
  fails : ∀ {c i cause}, N c.rest[0]? → v.Repeats cause → p.run c = .failed i cause →
    q.run (c.within v) = .failed (i + v.before) cause

/-- The parser `q` reads in the surroundings `v` what `p` reads. -/
structure Mirrors (v : Surroundings σ τ) (N : Option Lexeme → Prop) (R : α → β → Prop)
    (p : Parser α) (q : Parser β) : Prop extends Refuses v N p q where
  reads : ∀ {c a d}, N c.rest[0]? → p.run c = .done a d → Hides v d.rest →
    ∃ b, q.run (c.within v) = .done b (d.within v) ∧ R a b

/-- The parser `q` reads in the surroundings `v` what `p` reads, whatever is left: the last lexeme
that `p` passes over is a final one. -/
structure Seals (v : Surroundings σ τ) (N : Option Lexeme → Prop) (R : α → β → Prop)
    (p : Parser α) (q : Parser β) : Prop extends Refuses v N p q where
  hides : ∀ {c a d}, N c.rest[0]? → p.run c = .done a d → Hides v c.rest
  reads : ∀ {c a d}, N c.rest[0]? → p.run c = .done a d →
    ∃ b, q.run (c.within v) = .done b (d.within v) ∧ R a b

/-- The second value is what `φ` makes of the first. -/
def Becomes (φ : α → β) (a : α) (b : β) : Prop := b = φ a

/-- What the second form makes of a place in the surroundings is what `φ` makes of what the first
makes of the place itself. -/
def Awaits (v : Surroundings σ τ) (φ : α → β) (form : σ → α) (form' : τ → β) : Prop :=
  ∀ r, form' (v.place r) = φ (form r)

/-- The lexemes after the next one agree, or the next one is final. -/
def SameSecond (x y z : Option Lexeme) : Prop := y = z ∨ ∃ s, x = some s ∧ s.isFinal = true

/-- How a turn ends in other surroundings. -/
def Turn.Mirrored (ψ : κ → ι) (R : α → β → Prop) : Turn κ α → Turn ι β → Prop
  | .again s, .again t => t = ψ s
  | .leave a, .leave b => R a b
  | _, _ => False

section Rules

variable {v : Surroundings σ τ} {N N' : Option Lexeme → Prop} {R R' : α → β → Prop} {S : γ → δ → Prop}
  {φ : α → β} {p : Parser α} {q : Parser β} {f : α → Parser γ} {g : β → Parser δ} {c d : Cursor}
  {x : Lexeme}

/-! ### Lexemes that hide -/

theorem Hides.before {ms ls : List Lexeme} (h : Hides v ls) : Hides v (ms ++ ls) := by
  rcases h with hnone | htwo | ⟨x, rfl, hx⟩
  · exact .inl hnone
  · exact .inr (.inl (by rw [List.length_append]; omega))
  · cases ms with
    | nil => exact .inr (.inr ⟨x, rfl, hx⟩)
    | cons y ms => exact .inr (.inl (by simp))

/-- What hides the lexemes behind it also does with what was read in front of it. -/
theorem Hides.front {a : α} (h : Hides v d.rest) (hrun : p.run c = .done a d) : Hides v c.rest := by
  have hafter := p.after c
  rw [hrun] at hafter
  have hrest : c.rest = c.rest.take (d.position - c.position) ++ d.rest := by
    rw [Cursor.Reaches.rest_eq hafter, List.take_append_drop]
  rw [hrest]
  exact h.before

theorem hides_final (hx : x.isFinal = true) (ls : List Lexeme) : Hides v (x :: ls) := by
  cases ls with
  | nil => exact .inr (.inr ⟨x, rfl, hx⟩)
  | cons y ls => exact .inr (.inl (by simp))

theorem Hides.first {ls : List Lexeme} (h : Hides v ls) : (ls ++ v.behind)[0]? = ls[0]? := by
  rcases h with hnone | htwo | ⟨x, rfl, -⟩
  · rw [hnone, List.append_nil]
  · exact List.getElem?_append_left (by omega)
  · rfl

theorem Hides.second {ls : List Lexeme} (h : Hides v ls) :
    SameSecond ls[0]? ls[1]? (ls ++ v.behind)[1]? := by
  rcases h with hnone | htwo | ⟨x, rfl, hx⟩
  · rw [hnone, List.append_nil]
    exact .inl rfl
  · exact .inl (List.getElem?_append_left (by omega)).symm
  · exact .inr ⟨x, rfl, hx⟩

/-! ### Forms of the judgments -/

theorem Surroundings.Repeats.hides {cause : SyntaxCause} (h : v.Repeats cause) (ls : List Lexeme) :
    Hides v ls := .inl h.behind_eq

theorem Refuses.mono (h : Refuses v N p q) (hN : ∀ x, N' x → N x) : Refuses v N' p q where
  blames hc := h.blames (hN _ hc)
  fails hc := h.fails (hN _ hc)

theorem Mirrors.mono (h : Mirrors v N R p q) (hN : ∀ x, N' x → N x) (hR : ∀ a b, R a b → R' a b) :
    Mirrors v N' R' p q where
  toRefuses := h.toRefuses.mono hN
  reads hc hrun hd := by
    obtain ⟨b, hb, hab⟩ := h.reads (hN _ hc) hrun hd
    exact ⟨b, hb, hR _ b hab⟩

theorem Mirrors.any (h : Mirrors v Always R p q) : Mirrors v N R p q :=
  h.mono (fun _ _ => trivial) fun _ _ => id

theorem Seals.mirrors (h : Seals v N R p q) : Mirrors v N R p q where
  toRefuses := h.toRefuses
  reads hc hrun _ := h.reads hc hrun

theorem Seals.any (h : Seals v Always R p q) : Seals v N R p q where
  toRefuses := h.toRefuses.mono fun _ _ => trivial
  hides _ := h.hides trivial
  reads _ := h.reads trivial

/-! ### Values and failures -/

theorem refuses_pure {a : α} {b : β} : Refuses v N (pure a) (pure b) where
  blames _ hrun := by cases hrun
  fails _ _ hrun := by cases hrun

theorem mirrors_pure {a : α} {b : β} (h : R a b) : Mirrors v N R (pure a) (pure b) where
  toRefuses := refuses_pure
  reads _ hrun _ := by
    cases hrun
    exact ⟨b, rfl, h⟩

theorem refuses_fail {cause : SyntaxCause} (h : ∀ opener, cause ≠ .openBlock opener) :
    Refuses v N (fail cause : Parser α) (fail cause : Parser β) where
  blames _ hrun := by
    cases hrun
    exact absurd rfl (h _)
  fails _ _ hrun := by
    cases hrun
    rfl

theorem mirrors_fail {cause : SyntaxCause} (h : ∀ opener, cause ≠ .openBlock opener) :
    Mirrors v N R (fail cause) (fail cause) where
  toRefuses := refuses_fail h
  reads _ hrun := by cases hrun

theorem seals_fail {cause : SyntaxCause} (h : ∀ opener, cause ≠ .openBlock opener) :
    Seals v N R (fail cause) (fail cause) where
  toRefuses := refuses_fail h
  hides _ hrun := by cases hrun
  reads _ hrun := by cases hrun

/-- Where the first parser is exhausted, the second may be anything if it has more levels. -/
theorem seals_exhausted (h : v.levels = 0 → q = fail .exhausted) :
    Seals v N R (fail .exhausted) q where
  blames _ hrun := by cases hrun
  fails _ hv hrun := by
    cases hrun
    rw [h (hv.levels_eq rfl)]
    rfl
  hides _ hrun := by cases hrun
  reads _ hrun := by cases hrun

theorem mirrors_fail_bind {κ ι : Type} {cause : SyntaxCause} {f : κ → Parser γ} {g : ι → Parser δ}
    (h : ∀ opener, cause ≠ .openBlock opener) :
    Mirrors v N S (fail cause >>= f) (fail cause >>= g) :=
  mirrors_fail h

/-- At the end of the lexemes a block may be found to be open. -/
theorem mirrors_openBlock {κ ι : Type} {opener : Nat} {f : κ → Parser γ} {g : ι → Parser δ}
    (hN : ∀ x, N x → x = none) :
    Mirrors v N S (fail (.openBlock opener) >>= f)
      (fail (.openBlock (opener + v.before)) >>= g) where
  blames hc hrun := by
    cases hrun
    rw [List.getElem?_eq_none_iff.1 (hN _ hc) |> Nat.le_zero.1, Nat.add_zero]
  fails {c _ _} _ hv hrun := by
    cases hrun
    show Reply.failed (c.position + v.before) (.openBlock (opener + v.before)) = _
    rw [hv.before_eq]
    rfl
  reads _ hrun := by cases hrun

theorem mirrors_ite {P : Prop} [Decidable P] {p' : Parser α} {q' : Parser β}
    (h : Mirrors v N R p q) (h' : Mirrors v N R p' q') :
    Mirrors v N R (if P then p else p') (if P then q else q') := by
  split
  · exact h
  · exact h'

theorem seals_ite {P : Prop} [Decidable P] {p' : Parser α} {q' : Parser β}
    (h : Seals v N R p q) (h' : Seals v N R p' q') :
    Seals v N R (if P then p else p') (if P then q else q') := by
  split
  · exact h
  · exact h'

/-! ### One parser after another -/

/-- A failure comes from the first part, or from the second where the first has ended. -/
theorem Mirrors.refusesBind (hp : Mirrors v N (Becomes φ) p q)
    (hf : ∀ a, Refuses v Always (f a) (g (φ a))) : Refuses v N (p >>= f) (q >>= g) where
  blames hc hrun := by
    rcases bind_failed hrun with hfirst | ⟨a, d, hfirst, hsecond⟩
    · exact hp.blames hc hfirst
    · rw [(hf a).blames trivial hsecond, end_eq hfirst]
  fails hc hv hrun := by
    rcases bind_failed hrun with hfirst | ⟨a, d, hfirst, hsecond⟩
    · exact run_bind_failed (hp.fails hc hv hfirst) g
    · obtain ⟨_, hq, rfl⟩ := hp.reads hc hfirst (hv.hides _)
      rw [run_bind_done hq]
      exact (hf a).fails trivial hv hsecond

theorem Mirrors.bind (hp : Mirrors v N (Becomes φ) p q)
    (hf : ∀ a, Mirrors v Always S (f a) (g (φ a))) : Mirrors v N S (p >>= f) (q >>= g) where
  toRefuses := hp.refusesBind fun a => (hf a).toRefuses
  reads hc hrun hd := by
    obtain ⟨a, e, hfirst, hsecond⟩ := Parser.bind_done hrun
    obtain ⟨_, hq, rfl⟩ := hp.reads hc hfirst (hd.front hsecond)
    rw [run_bind_done hq]
    exact (hf a).reads trivial hsecond hd

/-- The rule for a first parser whose value has no places. -/
theorem Mirrors.behind {p q : Parser α} {g : α → Parser δ} (hp : Mirrors v N Eq p q)
    (hf : ∀ a, Mirrors v Always S (f a) (g a)) : Mirrors v N S (p >>= f) (q >>= g) :=
  (hp.mono (fun _ => id) fun _ _ => Eq.symm : Mirrors v N (Becomes id) p q).bind hf

theorem Mirrors.map {h : α → γ} {h' : β → δ} (hp : Mirrors v N (Becomes φ) p q)
    (hR : ∀ a, S (h a) (h' (φ a))) : Mirrors v N S (h <$> p) (h' <$> q) :=
  hp.bind fun a => mirrors_pure (hR a)

/-- What ends with something sealed is sealed. -/
theorem Mirrors.seals (hp : Mirrors v N (Becomes φ) p q)
    (hf : ∀ a, Seals v Always S (f a) (g (φ a))) : Seals v N S (p >>= f) (q >>= g) where
  toRefuses := hp.refusesBind fun a => (hf a).toRefuses
  hides hc hrun := by
    obtain ⟨a, e, hfirst, hsecond⟩ := Parser.bind_done hrun
    exact ((hf a).hides trivial hsecond).front hfirst
  reads hc hrun := by
    obtain ⟨a, e, hfirst, hsecond⟩ := Parser.bind_done hrun
    obtain ⟨_, hq, rfl⟩ := hp.reads hc hfirst ((hf a).hides trivial hsecond)
    rw [run_bind_done hq]
    exact (hf a).reads trivial hsecond

theorem Mirrors.sealsBehind {p q : Parser α} {g : α → Parser δ} (hp : Mirrors v N Eq p q)
    (hf : ∀ a, Seals v Always S (f a) (g a)) : Seals v N S (p >>= f) (q >>= g) :=
  (hp.mono (fun _ => id) fun _ _ => Eq.symm : Mirrors v N (Becomes id) p q).seals hf

section Finish

-- Both parsers end with a part that reads nothing and may look at the place of the cursor.
variable (k : α → Nat → γ) (l : β → Nat → δ) (hf : ∀ a d, (f a).run d = .done (k a d.position) d)
  (hg : ∀ b d, (g b).run d = .done (l b d.position) d)
include hf

theorem Refuses.finish (hp : Refuses v N p q) : Refuses v N (p >>= f) (q >>= g) where
  blames hc hrun := by
    rcases bind_failed hrun with hfirst | ⟨a, d, -, hsecond⟩
    · exact hp.blames hc hfirst
    · rw [hf] at hsecond
      cases hsecond
  fails hc hv hrun := by
    rcases bind_failed hrun with hfirst | ⟨a, d, -, hsecond⟩
    · exact run_bind_failed (hp.fails hc hv hfirst) g
    · rw [hf] at hsecond
      cases hsecond

include hg

theorem Mirrors.finish (hp : Mirrors v N R p q)
    (hR : ∀ a b i, R a b → S (k a i) (l b (i + v.before))) : Mirrors v N S (p >>= f) (q >>= g) where
  toRefuses := hp.toRefuses.finish k hf
  reads hc hrun hd := by
    obtain ⟨a, e, hfirst, hsecond⟩ := Parser.bind_done hrun
    rw [hf] at hsecond
    cases hsecond
    obtain ⟨b, hq, hab⟩ := hp.reads hc hfirst hd
    refine ⟨_, ?_, hR a b _ hab⟩
    rw [run_bind_done hq, hg]
    rfl

theorem Seals.finish (hp : Seals v N R p q)
    (hR : ∀ a b i, R a b → S (k a i) (l b (i + v.before))) : Seals v N S (p >>= f) (q >>= g) where
  toRefuses := hp.toRefuses.finish k hf
  hides hc hrun := by
    obtain ⟨a, e, hfirst, -⟩ := Parser.bind_done hrun
    exact hp.hides hc hfirst
  reads hc hrun := by
    obtain ⟨a, e, hfirst, hsecond⟩ := Parser.bind_done hrun
    rw [hf] at hsecond
    cases hsecond
    obtain ⟨b, hq, hab⟩ := hp.reads hc hfirst
    refine ⟨_, ?_, hR a b _ hab⟩
    rw [run_bind_done hq, hg]
    rfl

end Finish

/-- A value that is made of what is sealed. -/
theorem Seals.map {h : α → γ} {h' : β → δ} (hp : Seals v N (Becomes φ) p q)
    (hR : ∀ a, S (h a) (h' (φ a))) :
    Seals v N S (p >>= fun a => pure (h a)) (q >>= fun b => pure (h' b)) :=
  hp.finish (fun a _ => h a) (fun b _ => h' b) (fun _ _ => rfl) (fun _ _ => rfl)
    fun a _ _ hab => hab ▸ hR a

/-! ### Lexemes -/

/-- The next lexemes are the same in both surroundings, where this matters. -/
theorem run_look_within {g : Option Lexeme × Option Lexeme → Parser δ} (h : Hides v c.rest) :
    (look >>= g).run (c.within v) =
      (g (c.rest[0]?, (c.rest ++ v.behind)[1]?)).run (c.within v) := by
  rw [← h.first]
  rfl

section Look

variable {f : Option Lexeme × Option Lexeme → Parser γ} {g : Option Lexeme × Option Lexeme → Parser δ}

theorem refuses_look (h : ∀ x y z, SameSecond x y z → Refuses v (· = x) (f (x, y)) (g (x, z))) :
    Refuses v N (look >>= f) (look >>= g) where
  blames {c _ _} _ hrun := (h c.rest[0]? c.rest[1]? _ (.inl rfl)).blames rfl hrun
  fails {c i cause} _ hv hrun := by
    have hhides : Hides v c.rest := hv.hides _
    rw [run_look_within hhides]
    exact (h _ _ _ hhides.second).fails rfl hv hrun

theorem mirrors_look (h : ∀ x y z, SameSecond x y z → Mirrors v (· = x) S (f (x, y)) (g (x, z))) :
    Mirrors v N S (look >>= f) (look >>= g) where
  toRefuses := refuses_look fun x y z hsame => (h x y z hsame).toRefuses
  reads {c a d} _ hrun hd := by
    have hhides := hd.front hrun
    rw [run_look_within hhides]
    exact (h _ _ _ hhides.second).reads rfl hrun hd

theorem seals_look (h : ∀ x y z, SameSecond x y z → Seals v (· = x) S (f (x, y)) (g (x, z))) :
    Seals v N S (look >>= f) (look >>= g) where
  toRefuses := refuses_look fun x y z hsame => (h x y z hsame).toRefuses
  hides {c _ _} _ hrun := (h _ _ _ (.inl rfl)).hides rfl hrun
  reads {c a d} _ hrun := by
    have hhides : Hides v c.rest := (h _ _ _ (.inl rfl)).hides rfl hrun
    rw [run_look_within hhides]
    exact (h _ _ _ hhides.second).reads rfl hrun

end Look

theorem mirrors_peek {f : Option Lexeme → Parser γ} {g : Option Lexeme → Parser δ}
    (h : ∀ x, Mirrors v (· = x) S (f x) (g x)) : Mirrors v N S (peek >>= f) (peek >>= g) := by
  have hlook {κ : Type} (k : Option Lexeme → Parser κ) : (peek >>= k) = look >>= fun x => k x.1 := rfl
  rw [hlook, hlook]
  exact mirrors_look fun x _ _ _ => h x

theorem mirrors_shift : Mirrors v N Eq shift shift where
  blames {c _ _} _ hrun := by
    obtain ⟨i, _ | ⟨x, rest⟩⟩ := c <;> cases hrun
  fails {c _ _} _ _ hrun := by
    obtain ⟨i, _ | ⟨x, rest⟩⟩ := c <;> cases hrun
  reads {c a d} _ hrun hd := by
    obtain ⟨i, _ | ⟨x, rest⟩⟩ := c
    · cases hrun
      have hnone : v.behind = [] := by simpa [Hides] using hd
      refine ⟨(), ?_, rfl⟩
      rw [Cursor.within, hnone]
      rfl
    · cases hrun
      refine ⟨(), ?_, rfl⟩
      simp only [Cursor.within, List.cons_append]
      show Reply.done () ⟨i + v.before + 1, rest ++ v.behind⟩ = _
      rw [Nat.add_right_comm]

theorem mirrors_at? : Mirrors v N Eq (at? x) (at? x) :=
  mirrors_peek fun _ => mirrors_pure rfl

theorem mirrors_accept : Mirrors v N Eq (accept x) (accept x) :=
  mirrors_at?.behind fun _ => mirrors_ite (mirrors_shift.behind fun _ => mirrors_pure rfl)
    (mirrors_pure rfl)

theorem mirrors_symbol {s : Symbol} : Mirrors v N Eq (symbol s) (symbol s) :=
  mirrors_accept.behind fun _ => mirrors_ite (mirrors_pure rfl) (mirrors_fail (by simp))

theorem mirrors_keyword {k : Keyword} : Mirrors v N Eq (keyword k) (keyword k) :=
  mirrors_accept.behind fun _ => mirrors_ite (mirrors_pure rfl) (mirrors_fail (by simp))

/-! ### Places -/

theorem mirrors_position : Mirrors v N (Becomes (· + v.before)) position position where
  blames _ hrun := by cases hrun
  fails _ _ hrun := by cases hrun
  reads _ hrun _ := by
    cases hrun
    exact ⟨_, rfl, rfl⟩

theorem mirrors_currentPlace : Mirrors v N (Becomes v.place) currentPlace currentPlace :=
  mirrors_position.bind fun i => mirrors_pure (v.place_token i).symm

theorem mirrors_advance : Mirrors v N (Becomes v.place) advance advance :=
  mirrors_currentPlace.bind fun _ => mirrors_shift.behind fun _ => mirrors_pure rfl

theorem mirrors_previousPlace : Mirrors v N (Becomes v.place) previousPlace previousPlace :=
  mirrors_position.bind fun i => mirrors_pure (v.place_before i).symm

/-- A form becomes a value with the place from a first lexeme to the last one read. -/
theorem Awaits.covers {form : σ → α} {form' : τ → β} (h : Awaits v φ form form') (start : σ)
    (i : Nat) : Becomes φ (form (Places.merge start (Places.before i)))
      (form' (Places.merge (v.place start) (Places.before (i + v.before)))) := by
  rw [Becomes, ← v.place_before, ← v.place_merge]
  exact h _

theorem mirrors_located {p : Parser (σ → α)} {q : Parser (τ → β)}
    (h : Mirrors v Always (Awaits v φ) p q) : Mirrors v N (Becomes φ) (located p) (located q) :=
  mirrors_currentPlace.bind fun start =>
    h.finish (fun form i => form (Places.merge start (Places.before i)))
      (fun form i => form (Places.merge (v.place start) (Places.before i)))
      (fun _ _ => rfl) (fun _ _ => rfl) fun _ _ i hform => hform.covers start i

theorem seals_located {p : Parser (σ → α)} {q : Parser (τ → β)}
    (h : Seals v Always (Awaits v φ) p q) : Seals v N (Becomes φ) (located p) (located q) :=
  mirrors_currentPlace.seals fun start =>
    h.finish (fun form i => form (Places.merge start (Places.before i)))
      (fun form i => form (Places.merge (v.place start) (Places.before i)))
      (fun _ _ => rfl) (fun _ _ => rfl) fun _ _ i hform => hform.covers start i

/-! ### Loops -/

section Loops

variable {ψ : κ → ι} {turn : κ → Parser (Turn κ α)} {turn' : ι → Parser (Turn ι β)}
  (h : ∀ s, Mirrors v Always (Turn.Mirrored ψ R) (turn s) (turn' (ψ s)))

include h

/-- A turn that goes on has a counterpart that does. -/
theorem loopRun_again {s s' : κ} {c e : Cursor} (hturn : (turn s).run c = .done (.again s') e)
    (hlt : c.position < e.position) (he : Hides v e.rest) :
    loopRun turn' (ψ s) (c.within v) = loopRun turn' (ψ s') (e.within v) := by
  obtain ⟨t | _, ht, hst⟩ := (h s).reads trivial hturn he
  · obtain rfl : t = ψ s' := hst
    have hlt' : (c.within v).position < (e.within v).position := Nat.add_lt_add_right hlt _
    rw [loopRun, ht]
    exact if_pos hlt'
  · exact hst.elim

theorem mirrors_loop (s : κ) : Mirrors v N R (loop turn s) (loop turn' (ψ s)) where
  blames {c i opener} hc hrun := by
    have hloop : loopRun turn s c = .failed i (.openBlock opener) := hrun
    clear hc hrun
    fun_induction loopRun turn s c with
    | case1 s c j cause hturn =>
      cases hloop
      exact (h s).blames trivial hturn
    | case2 s c b e hturn => cases hloop
    | case3 s c s' e hturn hlt ih => rw [ih hloop, end_eq hturn]
    | case4 s c s' e hturn hlt => cases hloop
  fails {c i cause} hc hv hrun := by
    have hloop : loopRun turn s c = .failed i cause := hrun
    show loopRun turn' (ψ s) (c.within v) = .failed (i + v.before) cause
    clear hc hrun
    fun_induction loopRun turn s c with
    | case1 s c j e hturn =>
      cases hloop
      rw [loopRun, (h s).fails trivial hv hturn]
    | case2 s c b e hturn => cases hloop
    | case3 s c s' e hturn hlt ih =>
      rw [loopRun_again h hturn hlt (hv.hides _)]
      exact ih hloop
    | case4 s c s' e hturn hlt =>
      -- the turn has read nothing, and so has its counterpart
      cases hloop
      obtain ⟨t | _, ht, hst⟩ := (h s).reads trivial hturn (hv.hides _)
      · have hlt' : ¬ (c.within v).position < (e.within v).position := by
          simpa [Cursor.within] using hlt
        rw [loopRun, ht]
        simp only [hlt', if_false]
        rfl
      · exact hst.elim
  reads {c a d} hc hrun hd := by
    have hloop : loopRun turn s c = .done a d := hrun
    show ∃ b, loopRun turn' (ψ s) (c.within v) = .done b (d.within v) ∧ R a b
    clear hc hrun
    fun_induction loopRun turn s c with
    | case1 s c i cause hturn => cases hloop
    | case2 s c b e hturn =>
      cases hloop
      obtain ⟨_ | b, hb, hab⟩ := (h s).reads trivial hturn hd
      · exact hab.elim
      · rw [loopRun, hb]
        exact ⟨b, rfl, hab⟩
    | case3 s c s' e hturn hlt ih =>
      have hfront : Hides v e.rest := hd.front (p := loop turn s') hloop
      rw [loopRun_again h hturn hlt hfront]
      exact ih hloop
    | case4 s c s' e hturn hlt => cases hloop

end Loops

theorem mirrors_again {ψ : κ → ι} {s : κ} {t : ι} (h : t = ψ s) :
    Mirrors v N (Turn.Mirrored ψ R) (pure (.again s)) (pure (.again t)) :=
  mirrors_pure h

theorem mirrors_leave {ψ : κ → ι} {a : α} {b : β} (h : R a b) :
    Mirrors v N (Turn.Mirrored ψ R) (pure (.leave a)) (pure (.leave b)) :=
  mirrors_pure h

theorem mirrors_commaSeparated {close : Symbol} (h : Mirrors v Always (Becomes φ) p q)
    (items : List α) : Mirrors v N (Becomes (List.map φ)) (commaSeparated close p items)
      (commaSeparated close q (items.map φ)) := by
  refine mirrors_loop (ψ := List.map φ) (fun items => ?_) items
  refine mirrors_at?.behind fun ends => mirrors_ite (mirrors_leave List.map_reverse.symm) ?_
  refine h.bind fun a => mirrors_accept.behind fun comma => ?_
  exact mirrors_ite (mirrors_again rfl) (mirrors_leave (List.map_reverse (l := a :: items)).symm)

/-- A part of a construct that is there if a certain lexeme is. -/
theorem mirrors_optionalPart {f : Option α → Parser γ} {g : Option β → Parser δ}
    (hp : Mirrors v Always (Becomes φ) p q) (hf : ∀ a, Mirrors v Always S (f a) (g (a.map φ))) :
    Mirrors v N S
      (accept x >>= fun found => if found = true then some <$> p >>= f else pure none >>= f)
      (accept x >>= fun found => if found = true then some <$> q >>= g else pure none >>= g) := by
  refine mirrors_accept.behind fun found => mirrors_ite ?_ (hf none)
  have hsome : Mirrors v Always (Becomes (Option.map φ)) (some <$> p) (some <$> q) :=
    hp.map fun _ => rfl
  exact hsome.bind hf

/-! ### Final lexemes -/

theorem eq_cons_of_front {c : Cursor} (h : c.rest[0]? = some x) : ∃ ls, c = ⟨c.position, x :: ls⟩ := by
  obtain ⟨i, _ | ⟨y, ls⟩⟩ := c
  · cases h
  · obtain rfl : y = x := by simpa using h
    exact ⟨ls, rfl⟩

/-- The rule for a parser that, in front of a final lexeme, passes over it and reads nothing else. -/
theorem seals_past {p : Parser α} {q : Parser β} {a : α} {b : β} (hx : x.isFinal = true)
    (hN : ∀ y, N y → y = some x) (hp : ∀ m ls, p.run ⟨m, x :: ls⟩ = .done a ⟨m + 1, ls⟩)
    (hq : ∀ m ls, q.run ⟨m, x :: ls⟩ = .done b ⟨m + 1, ls⟩) (h : R a b) : Seals v N R p q where
  blames {c _ _} hc hrun := by
    obtain ⟨ls, hls⟩ := eq_cons_of_front (hN _ hc)
    rw [hls, hp] at hrun
    cases hrun
  fails {c _ _} hc _ hrun := by
    obtain ⟨ls, hls⟩ := eq_cons_of_front (hN _ hc)
    rw [hls, hp] at hrun
    cases hrun
  hides {c _ _} hc _ := by
    obtain ⟨ls, hls⟩ := eq_cons_of_front (hN _ hc)
    rw [hls]
    exact hides_final hx ls
  reads {c _ _} hc hrun := by
    obtain ⟨ls, hls⟩ := eq_cons_of_front (hN _ hc)
    rw [hls, hp] at hrun
    cases hrun
    refine ⟨b, ?_, h⟩
    rw [hls]
    simp only [Cursor.within, List.cons_append, hq, Nat.add_right_comm]

/-- The rule for two parsers that differ from others in front of a certain lexeme only. -/
theorem seals_either {p r : Parser α} {q r' : Parser β} (hyes : Seals v (· = some x) R p q)
    (hno : Seals v N R r r') (hp : ∀ c, c.rest[0]? ≠ some x → p.run c = r.run c)
    (hq : ∀ c, c.rest[0]? ≠ some x → q.run c = r'.run c) : Seals v N R p q where
  blames {c _ _} hc hrun := by
    by_cases hx : c.rest[0]? = some x
    · exact hyes.blames hx hrun
    · rw [hp c hx] at hrun
      exact hno.blames hc hrun
  fails {c _ _} hc hv hrun := by
    by_cases hx : c.rest[0]? = some x
    · exact hyes.fails hx hv hrun
    · rw [hp c hx] at hrun
      have hx' : (c.within v).rest[0]? ≠ some x := by
        rwa [show (c.within v).rest[0]? = c.rest[0]? from (hv.hides _).first]
      rw [hq _ hx']
      exact hno.fails hc hv hrun
  hides {c _ _} hc hrun := by
    by_cases hx : c.rest[0]? = some x
    · exact hyes.hides hx hrun
    · rw [hp c hx] at hrun
      exact hno.hides hc hrun
  reads {c _ _} hc hrun := by
    by_cases hx : c.rest[0]? = some x
    · exact hyes.reads hx hrun
    · rw [hp c hx] at hrun
      have hx' : (c.within v).rest[0]? ≠ some x := by
        rwa [show (c.within v).rest[0]? = c.rest[0]? from (hno.hides hc hrun).first]
      rw [hq _ hx']
      exact hno.reads hc hrun

/-- A final symbol that has to come, and a value. -/
theorem seals_symbol {s : Symbol} {a : α} {b : β} (hs : (Lexeme.symbol s).isFinal = true)
    (h : R a b) : Seals v N R (symbol s >>= fun _ => pure a) (symbol s >>= fun _ => pure b) := by
  have hother : Seals v N R (fail (.expected (.symbol s))) (fail (.expected (.symbol s))) :=
    seals_fail (by simp)
  refine seals_either (x := .symbol s)
    (seals_past hs (fun _ => id) (fun m ls => ?_) (fun m ls => ?_) h) hother
    (fun c hc => ?_) fun c hc => ?_
  · rw [run_bind, run_symbol_cons]
    rfl
  · rw [run_bind, run_symbol_cons]
    rfl
  · rw [run_bind, run_symbol_other hc]
    rfl
  · rw [run_bind, run_symbol_other hc]
    rfl

/-- A final lexeme that may come, and a value if it does. -/
theorem seals_if_accept {r : Parser α} {r' : Parser β} {a : α} {b : β} (hx : x.isFinal = true)
    (h : R a b) (hno : Seals v N R r r') :
    Seals v N R (accept x >>= fun found => if found = true then pure a else r)
      (accept x >>= fun found => if found = true then pure b else r') := by
  refine seals_either (x := x)
    (seals_past hx (fun _ => id) (fun m ls => ?_) (fun m ls => ?_) h) hno
    (fun c hc => ?_) fun c hc => ?_
  · rw [run_bind, run_accept_cons]
    rfl
  · rw [run_bind, run_accept_cons]
    rfl
  · rw [run_bind, run_accept_other hc]
    rfl
  · rw [run_bind, run_accept_other hc]
    rfl

theorem seals_optionalPart {f : Option α → Parser γ} {g : Option β → Parser δ}
    (hp : Mirrors v Always (Becomes φ) p q) (hf : ∀ a, Seals v Always S (f a) (g (a.map φ))) :
    Seals v N S
      (accept x >>= fun found => if found = true then some <$> p >>= f else pure none >>= f)
      (accept x >>= fun found => if found = true then some <$> q >>= g else pure none >>= g) := by
  refine mirrors_accept.sealsBehind fun found => ?_
  split
  · have hsome : Mirrors v Always (Becomes (Option.map φ)) (some <$> p) (some <$> q) :=
      hp.map fun _ => rfl
    exact hsome.seals hf
  · exact hf none

end Rules

end EnsembleCompiler.Target
