import EnsembleCompiler.Proofs.Target.Parts

/-!
# A logic for the parts that parsers build

A parser is seen as a machine with a stack of parts, which fill the lexemes from a start up to its
cursor. It puts the lexemes that it passes over onto the stack, and takes parts off it to put the
construct that they make in their place. `Builds n N start ps p T`: with the parts `ps` on its stack
and in front of fewer than `n` lexemes that satisfy `N`, the parser `p` is not exhausted, and if it
is done then `T` holds of what is still in front of it, its value, and the parts on its stack. Each
primitive has a rule.

The place of a construct has to be that of the lexemes from its first to its last, and the parser
puts it together from the places of single lexemes and of smaller constructs. That the two agree is
due to two laws of places, `LawfulPlaces`.
-/

namespace EnsembleCompiler.Target

open Target.Parser

/-- Places of stretches of lexemes: merging the places of two stretches, of which the first begins
and the second ends no later than the other, gives the place of the stretch from the beginning of the
first to the end of the second. -/
class LawfulPlaces (σ : Type) extends Places σ where
  /-- The place of the lexemes from index `i` up to `j`. -/
  extent : Nat → Nat → σ
  token_eq (i : Nat) : token i = extent i (i + 1)
  merge_extent {i j k l : Nat} : i < j → k < l → i ≤ k → j ≤ l →
    merge (extent i j) (extent k l) = extent i l

instance : LawfulPlaces Unit where
  extent _ _ := ()
  token_eq _ := rfl
  merge_extent _ _ _ _ := rfl

open LawfulPlaces (extent)

variable {α β σ ψ : Type} [LawfulPlaces σ]

/-- What an answer says, where parts filled the lexemes `ls` and the lexemes `rest` followed. -/
def Reply.Builds (start : Nat) (ls rest : List Lexeme)
    (T : List Lexeme → α → List (Part σ) → Prop) : Reply α → Prop
  | .done a d => ∃ qs ms, rest = ms ++ d.rest ∧ Fills extent qs start (ls ++ ms) ∧ T d.rest a qs
  | .failed _ cause => cause ≠ .exhausted

/-- With the parts `ps` behind it and fewer than `n` lexemes in front of it, the parser is not
exhausted, and what it builds is as `T` says. -/
def Builds (n : Nat) (N : List Lexeme → Prop) (start : Nat) (ps : List (Part σ)) (p : Parser α)
    (T : List Lexeme → α → List (Part σ) → Prop) : Prop :=
  ∀ c ls, c.rest.length < n → N c.rest → Fills extent ps start ls →
    c.position = start + ls.length → (p.run c).Builds start ls c.rest T

/-- In front of fewer than `n` lexemes, the parser is not exhausted, and what it passes over is
filled by parts that `R` relates to its value. -/
def Forms (n : Nat) (N : List Lexeme → Prop) (p : Parser α) (R : α → List (Part σ) → Prop) :
    Prop :=
  ∀ start, Builds n N start [] p fun _ => R

section Rules

variable {n m start : Nat} {N N' : List Lexeme → Prop} {ps : List (Part σ)} {p : Parser α}
  {f : α → Parser β} {x : Lexeme} {R S : α → List (Part σ) → Prop}
  {T U : List Lexeme → β → List (Part σ) → Prop}

/-! ### Answers -/

theorem Reply.Builds.past {r : Reply β} {ls ms rest : List Lexeme}
    (h : r.Builds start (ls ++ ms) rest T) : r.Builds start ls (ms ++ rest) T := by
  cases r with
  | done b d =>
    obtain ⟨qs, ks, rfl, hfills, hb⟩ := h
    refine ⟨qs, ms ++ ks, (List.append_assoc _ _ _).symm, ?_, hb⟩
    rwa [← List.append_assoc]
  | failed i cause => exact h

theorem Cursor.Reaches.position_eq {c d : Cursor} {ms : List Lexeme} (h : c.Reaches d)
    (hrest : c.rest = ms ++ d.rest) : d.position = c.position + ms.length := by
  have hle := h.le
  have hinside := h.inside
  have hlength := h.length_eq
  rw [hrest, List.length_append] at hinside hlength
  omega

/-! ### Forms of the judgments -/

theorem Builds.mono {q : Parser β} (h : Builds n N start ps q T) (hm : m ≤ n)
    (hN : ∀ ls, N' ls → N ls) (hT : ∀ rest b qs, T rest b qs → U rest b qs) : Builds m N' start ps q U := by
  intro c ls hlength hc hfills hposition
  have hr := h c ls (by omega) (hN _ hc) hfills hposition
  cases hrun : q.run c with
  | done b d =>
    rw [hrun] at hr
    obtain ⟨qs, ms, hms, hqs, hb⟩ := hr
    exact ⟨qs, ms, hms, hqs, hT d.rest b qs hb⟩
  | failed i cause =>
    rw [hrun] at hr
    exact hr

theorem Forms.mono (h : Forms n N p R) (hm : m ≤ n) (hN : ∀ ls, N' ls → N ls)
    (hR : ∀ a qs, R a qs → S a qs) : Forms m N' p S :=
  fun start => (h start).mono hm hN fun _ => hR

theorem Forms.any (h : Forms n Always p R) : Forms n N p R :=
  h.mono (Nat.le_refl n) (fun _ _ => trivial) fun _ _ => id

theorem Forms.less (h : Forms n N p R) (hm : m ≤ n) : Forms m N p R :=
  h.mono hm (fun _ => id) fun _ _ => id

/-- What a parser stood in front of is known of what its parts fill. -/
theorem Forms.starting (h : Forms n N p R) : Forms n N p fun a qs =>
    R a qs ∧ ∃ i ms rest, Fills extent qs i ms ∧ N (ms ++ rest) := by
  intro start c ls hlength hc hfills hposition
  have hr := h start c ls hlength hc hfills hposition
  cases hrun : p.run c with
  | done a d =>
    rw [hrun] at hr
    obtain ⟨qs, ms, hms, hqs, ha⟩ := hr
    cases hfills
    exact ⟨qs, ms, hms, hqs, ha, start, ms, d.rest, hqs, hms ▸ hc⟩
  | failed i cause =>
    rw [hrun] at hr
    exact hr

/-- Parts further down on the stack stay there. -/
theorem Builds.frame {q : Parser β}
    (h : ∀ start, Builds n N start [] q fun rest b qs => T rest b (ps ++ qs)) :
    Builds n N start ps q T := by
  intro c ls hlength hc hfills hposition
  have hr := h (start + ls.length) c [] hlength hc .nil hposition
  cases hrun : q.run c with
  | done b d =>
    rw [hrun] at hr
    obtain ⟨qs, ms, hms, hqs, hb⟩ := hr
    exact ⟨ps ++ qs, ms, hms, hfills.append hqs, hb⟩
  | failed i cause =>
    rw [hrun] at hr
    exact hr

/-- What is known of all that the parser may be in front of. -/
theorem Builds.known {P : Prop} {q : Parser β} (hN : ∀ ls, N ls → P)
    (h : P → Builds n N start ps q T) : Builds n N start ps q T :=
  fun c ls hlength hc => h (hN _ hc) c ls hlength hc

/-- A construct on top of the stack makes another one on its own, in the same place. -/
theorem Builds.regroup {q : Parser β} {y z : Construct σ} (hplace : z.place = y.place)
    (hmade : z.MadeOf [.construct y]) (h : Builds n N start (ps ++ [Part.construct z]) q T) :
    Builds n N start (ps ++ [Part.construct y]) q T := by
  intro c ls hlength hc hfills hposition
  obtain ⟨ms, ks, rfl, hms, hks⟩ := hfills.split
  obtain ⟨-, -, -, hy⟩ := hks.of_one
  exact h c _ hlength hc (hms.append (.one hmade hks (hplace.trans hy))) hposition

/-! ### Rules -/

theorem builds_pure {b : β} (h : ∀ rest, rest.length < n → N rest → T rest b ps) :
    Builds n N start ps (pure b) T := by
  intro c ls hlength hc hfills _
  refine ⟨ps, [], rfl, ?_, h c.rest hlength hc⟩
  rwa [List.append_nil]

theorem builds_done {a : α} (h : R a ps) : Builds n N start ps (pure a) fun _ => R :=
  builds_pure fun _ _ _ => h

theorem builds_fail {cause : SyntaxCause} (h : cause ≠ .exhausted) :
    Builds n N start ps (fail cause : Parser β) T :=
  fun _ _ _ _ _ _ => h

theorem builds_fail_bind {cause : SyntaxCause} (h : cause ≠ .exhausted) :
    Builds n N start ps (fail cause >>= f) T :=
  fun _ _ _ _ _ _ => h

/-- One parser after another: what the first passes over is no longer in front of the second. -/
theorem Forms.bindPast (hp : Forms n N p R)
    (hf : ∀ a qs i ms, R a qs → Fills extent qs i ms →
      Builds (n - ms.length) Always start (ps ++ qs) (f a) T) :
    Builds n N start ps (p >>= f) T := by
  intro c ls hlength hc hfills hposition
  have hr := hp (start + ls.length) c [] hlength hc .nil hposition
  have hafter := p.after c
  rw [run_bind]
  cases hrun : p.run c with
  | done a d =>
    rw [hrun] at hr hafter
    obtain ⟨qs, ms, hms, hqs, ha⟩ := hr
    have hd := Cursor.Reaches.position_eq hafter hms
    rw [hms, List.length_append] at hlength
    rw [hms]
    refine .past (hf a qs _ ms ha hqs d (ls ++ ms) (by omega) trivial (hfills.append hqs) ?_)
    rw [List.length_append]
    omega
  | failed i cause =>
    rw [hrun] at hr
    exact hr

theorem Forms.bind (hp : Forms n N p R)
    (hf : ∀ a qs, R a qs → Builds n Always start (ps ++ qs) (f a) T) :
    Builds n N start ps (p >>= f) T :=
  hp.bindPast fun a qs _ ms ha _ =>
    (hf a qs ha).mono (Nat.sub_le n ms.length) (fun _ => id) fun _ _ _ => id

/-- Where the first parser reads something, what follows is in front of fewer lexemes. -/
theorem Forms.read (hp : Forms n N p R) (hR : ∀ a qs, R a qs → qs ≠ [])
    (hf : ∀ a qs, R a qs → Builds (n - 1) Always start (ps ++ qs) (f a) T) :
    Builds n N start ps (p >>= f) T := by
  refine hp.bindPast fun a qs i ms ha hqs => ?_
  have hpos : 0 < ms.length := List.length_pos_iff.2 (hqs.ne_nil (hR a qs ha))
  exact (hf a qs ha).mono (by omega) (fun _ => id) fun _ _ _ => id

theorem Forms.map {g : α → β} {S : β → List (Part σ) → Prop} (hp : Forms n N p R)
    (hg : ∀ a qs, R a qs → S (g a) qs) : Forms n N (g <$> p) S :=
  fun _ => hp.bind fun a qs ha => builds_done (hg a qs ha)

theorem builds_ite {P : Prop} [Decidable P] {q r : Parser β} (hyes : P → Builds n N start ps q T)
    (hno : ¬ P → Builds n N start ps r T) : Builds n N start ps (if P then q else r) T := by
  split
  · rename_i h
    exact hyes h
  · rename_i h
    exact hno h

theorem builds_look {f : Option Lexeme × Option Lexeme → Parser β}
    (h : ∀ x y, Builds n (fun ls => N ls ∧ ls[0]? = x ∧ ls[1]? = y) start ps (f (x, y)) T) :
    Builds n N start ps (look >>= f) T :=
  fun c ls hlength hc => h c.rest[0]? c.rest[1]? c ls hlength ⟨hc, rfl, rfl⟩

theorem builds_peek {f : Option Lexeme → Parser β}
    (h : ∀ x, Builds n (fun ls => N ls ∧ ls[0]? = x) start ps (f x) T) :
    Builds n N start ps (peek >>= f) T :=
  fun c ls hlength hc => h c.rest[0]? c ls hlength ⟨hc, rfl⟩

/-- The rule for a parser that passes over `x` and then is `q`. -/
theorem Builds.behind {q r : Parser β} (hN : ∀ ls, N ls → ls[0]? = some x)
    (hrun : ∀ m ls, r.run ⟨m, x :: ls⟩ = q.run ⟨m + 1, ls⟩)
    (h : Builds (n - 1) Always start (ps ++ [Part.lexeme x]) q T) : Builds n N start ps r T := by
  rintro ⟨m, rest⟩ ls hlength hc hfills hposition
  have hx := hN rest hc
  cases rest with
  | nil => simp at hx
  | cons y rest =>
    obtain rfl : y = x := by simpa using hx
    rw [List.length_cons] at hlength
    rw [hrun]
    have hread := h ⟨m + 1, rest⟩ (ls ++ [y]) (show rest.length < n - 1 by omega) trivial
      (hfills.append (.lexeme .nil)) ?_
    · exact hread.past
    · have hm : m = start + ls.length := hposition
      rw [List.length_append]
      show m + 1 = start + (ls.length + 1)
      omega

theorem builds_shift {f : Unit → Parser β} (hN : ∀ ls, N ls → ls[0]? = some x)
    (h : Builds (n - 1) Always start (ps ++ [Part.lexeme x]) (f ()) T) :
    Builds n N start ps (shift >>= f) T :=
  .behind hN (fun _ _ => rfl) h

/-- The rule for a parser that is `q` behind `x` if that comes next, and `s` otherwise. -/
theorem builds_either {q r s : Parser β}
    (hyes : Builds (n - 1) Always start (ps ++ [Part.lexeme x]) q T)
    (hread : ∀ m ls, r.run ⟨m, x :: ls⟩ = q.run ⟨m + 1, ls⟩)
    (hno : Builds n (fun ls => N ls ∧ ls[0]? ≠ some x) start ps s T)
    (hother : ∀ c, c.rest[0]? ≠ some x → r.run c = s.run c) : Builds n N start ps r T := by
  intro c ls hlength hc hfills hposition
  by_cases hx : c.rest[0]? = some x
  · exact Builds.behind (N := fun ls => ls[0]? = some x) (fun _ => id) hread hyes c ls hlength hx
      hfills hposition
  · rw [hother c hx]
    exact hno c ls hlength ⟨hc, hx⟩ hfills hposition

theorem builds_accept {f : Bool → Parser β}
    (hyes : Builds (n - 1) Always start (ps ++ [Part.lexeme x]) (f true) T)
    (hno : Builds n (fun ls => N ls ∧ ls[0]? ≠ some x) start ps (f false) T) :
    Builds n N start ps (accept x >>= f) T := by
  refine builds_either hyes (fun m ls => ?_) hno fun c hc => ?_
  · rw [run_bind, run_accept_cons]
  · rw [run_bind, run_accept_other hc]

theorem builds_if_accept {q r : Parser β}
    (hyes : Builds (n - 1) Always start (ps ++ [Part.lexeme x]) q T)
    (hno : Builds n (fun ls => N ls ∧ ls[0]? ≠ some x) start ps r T) :
    Builds n N start ps (accept x >>= fun found => if found = true then q else r) T :=
  builds_accept hyes hno

theorem builds_symbol {s : Symbol} {f : Unit → Parser β}
    (h : Builds (n - 1) Always start (ps ++ [Part.symbol s]) (f ()) T) :
    Builds n N start ps (symbol s >>= f) T := by
  refine builds_either (s := fail (.expected (.symbol s))) h (fun m ls => ?_)
    (builds_fail (by simp)) fun c hc => ?_
  · rw [run_bind, run_symbol_cons]
  · rw [run_bind, run_symbol_other hc]
    rfl

theorem builds_keyword {k : Keyword} {f : Unit → Parser β}
    (h : Builds (n - 1) Always start (ps ++ [Part.keyword k]) (f ()) T) :
    Builds n N start ps (keyword k >>= f) T := by
  refine builds_either (s := fail (.expected (.keyword k))) h (fun m ls => ?_)
    (builds_fail (by simp)) fun c hc => ?_
  · rw [run_bind, keyword, run_bind, run_accept_cons]
    rfl
  · rw [run_bind, keyword, run_bind, run_accept_other hc]
    rfl

theorem builds_if_at {q r : Parser β}
    (hyes : Builds n (fun ls => N ls ∧ ls[0]? = some x) start ps q T)
    (hno : Builds n N start ps r T) :
    Builds n N start ps (at? x >>= fun found => if found = true then q else r) T := by
  intro c ls hlength hc hfills hposition
  have hrun : (at? x >>= fun found => if found = true then q else r).run c =
      (if decide (c.rest[0]? = some x) = true then q else r).run c := rfl
  rw [hrun]
  by_cases hx : c.rest[0]? = some x
  · rw [decide_eq_true hx]
    exact hyes c ls hlength ⟨hc, hx⟩ hfills hposition
  · rw [decide_eq_false hx]
    exact hno c ls hlength hc hfills hposition

/-- A lexeme that may be missing. -/
theorem forms_found : Forms n N (accept x) fun found (qs : List (Part σ)) =>
    qs = words (if found then [x] else []) := by
  intro start
  refine builds_either (q := pure true) (s := pure false) (builds_done rfl) run_accept_cons
    (builds_done rfl) fun c hc => ?_
  rw [run_accept_other hc]
  rfl

/-! ### Places -/

theorem builds_position {f : Nat → Parser β} (h : ∀ i, Builds n N start ps (f i) T) :
    Builds n N start ps (position >>= f) T :=
  fun c => h c.position c

/-- On a stack that is empty, the place of the next lexeme is where everything begins. -/
theorem builds_currentPlace {f : σ → Parser β}
    (h : Builds n N start [] (f (extent start (start + 1))) T) :
    Builds n N start [] (currentPlace >>= f) T := by
  intro c ls hlength hc hfills hposition
  have hstart : c.position = start := by
    cases hfills
    exact hposition
  have hplace : (Places.token c.position : σ) = extent start (start + 1) := by
    rw [hstart, LawfulPlaces.token_eq]
  show ((f (Places.token c.position)).run c).Builds start ls c.rest T
  rw [hplace]
  exact h c ls hlength hc hfills hposition

theorem builds_advance_first {f : σ → Parser β} (hN : ∀ ls, N ls → ls[0]? = some x)
    (h : Builds (n - 1) Always start [Part.lexeme x] (f (extent start (start + 1))) T) :
    Builds n N start [] (advance >>= f) T := by
  rw [advance, bind_assoc]
  refine builds_currentPlace ?_
  rw [bind_assoc]
  exact builds_shift hN h

/-- Behind other parts, a lexeme that is passed over is the previous one. -/
theorem builds_advance {f : σ → Parser β} (hN : ∀ ls, N ls → ls[0]? = some x)
    (h : Builds (n - 1) Always start (ps ++ [Part.lexeme x]) (previousPlace >>= f) T) :
    Builds n N start ps (advance >>= f) T :=
  .behind hN (fun _ _ => rfl) h

/-- The place of the first of the lexemes that parts fill, or of some of them from the first on. -/
def Begins (start : Nat) (place : σ) (ps : List (Part σ)) : Prop :=
  ∀ ls, Fills extent ps start ls → ∃ i, start < i ∧ i ≤ start + ls.length ∧ place = extent start i

theorem begins_first (hps : ps ≠ []) : Begins start (extent start (start + 1)) ps := by
  intro ls hfills
  have hpos := List.length_pos_iff.2 (hfills.ne_nil hps)
  exact ⟨start + 1, Nat.lt_succ_self start, by omega, rfl⟩

theorem begins_construct (y : Construct σ) : Begins start y.place (.construct y :: ps) := by
  intro ls hfills
  have hparts : Fills extent ([.construct y] ++ ps) start ls := hfills
  obtain ⟨ms, ks, rfl, hms, -⟩ := hparts.split
  obtain ⟨_, -, -, hplace⟩ := hms.of_one
  have hpos := List.length_pos_iff.2 (hms.ne_nil (by simp))
  refine ⟨_, by omega, ?_, hplace⟩
  rw [List.length_append]
  omega

/-- The parts on the stack make a construct. -/
theorem Builds.wrap {q : Parser β} {z : Construct σ} (hmade : z.MadeOf ps)
    (hplace : ∀ ls, Fills extent ps start ls → z.place = extent start (start + ls.length))
    (h : Builds n N start [Part.construct z] q T) : Builds n N start ps q T :=
  fun c ls hlength hc hfills =>
    h c ls hlength hc (.one hmade hfills (hplace ls hfills))

/-- The parts make a construct whose place is merged from places at their two ends. -/
theorem Builds.join {q : Parser β} {y z : Construct σ} {place : σ}
    (hbegins : Begins start place (ps ++ [.construct y]))
    (hplace : z.place = Places.merge place y.place) (hmade : z.MadeOf (ps ++ [.construct y]))
    (h : Builds n N start [Part.construct z] q T) :
    Builds n N start (ps ++ [.construct y]) q T := by
  refine .wrap hmade (fun ls hfills => ?_) h
  obtain ⟨i, hi, hle, rfl⟩ := hbegins ls hfills
  obtain ⟨ms, ks, rfl, -, hks⟩ := hfills.split
  obtain ⟨_, -, -, hlast⟩ := hks.of_one
  have hpos := List.length_pos_iff.2 (hks.ne_nil (by simp))
  rw [List.length_append, ← Nat.add_assoc] at hle ⊢
  rw [hplace, hlast]
  exact LawfulPlaces.merge_extent hi (by omega) (by omega) hle

/-- The parts make a construct that ends with the lexeme that was read last. -/
theorem builds_previousPlace {f : σ → Parser β} {place : σ} (y : σ → Construct σ)
    (hbegins : Begins start place ps) (hplace : ∀ last, (y last).place = Places.merge place last)
    (hmade : ∀ last, (y last).MadeOf ps)
    (h : ∀ last, Builds n N start [.construct (y last)] (f last) T) :
    Builds n N start ps (previousPlace >>= f) T := by
  intro c ls hlength hc hfills hposition
  obtain ⟨i, hi, hle, hfirst⟩ := hbegins ls hfills
  obtain ⟨stop, hstop⟩ : ∃ stop, start + ls.length = stop + 1 := ⟨start + ls.length - 1, by omega⟩
  have hlast : (Places.before c.position : σ) = extent stop (stop + 1) := by
    rw [hposition, hstop]
    exact LawfulPlaces.token_eq stop
  show ((f (Places.before c.position)).run c).Builds start ls c.rest T
  rw [hlast]
  refine h _ c ls hlength hc (.one (hmade _) hfills ?_) hposition
  rw [hplace, hfirst, hstop]
  exact LawfulPlaces.merge_extent hi (Nat.lt_succ_self stop) (by omega) (by omega)

/-- Wherever it is placed, the construct is made of the parts. -/
def AwaitsPlace (y : β → Construct σ) (form : σ → β) (qs : List (Part σ)) : Prop :=
  ∀ place, (y (form place)).place = place ∧ (y (form place)).MadeOf qs

/-- A construct with its place, and what is so of it wherever it is placed. -/
theorem forms_located_and {q : Parser (σ → β)} (y : β → Construct σ) {P : β → Prop}
    (h : Forms n N q fun form qs => AwaitsPlace y form qs ∧ ∀ place, P (form place)) :
    Forms n N (located q) fun b qs => qs = [.construct (y b)] ∧ P b := by
  refine fun start => builds_currentPlace (h.bind fun form qs hform => ?_)
  obtain ⟨hform, hP⟩ := hform
  have hne : qs ≠ [] := (hform Places.dummy).2.ne_nil
  exact builds_previousPlace (fun last => y (form (Places.merge (extent start (start + 1)) last)))
    (begins_first hne) (fun _ => (hform _).1) (fun _ => (hform _).2) fun _ => builds_done ⟨rfl, hP _⟩

theorem forms_located {q : Parser (σ → β)} (y : β → Construct σ)
    (h : Forms n N q (AwaitsPlace y)) : Forms n N (located q) fun b qs => qs = [.construct (y b)] :=
  (forms_located_and (P := fun _ => True) y (h.mono (Nat.le_refl n) (fun _ => id)
    fun _ _ hform => ⟨hform, fun _ => trivial⟩)).mono (Nat.le_refl n) (fun _ => id) fun _ _ hb => hb.1

/-- A construct that is a single lexeme. -/
theorem forms_leaf {form : σ → β} (y : β → Construct σ) (hN : ∀ ls, N ls → ls[0]? = some x)
    (h : AwaitsPlace y form [.lexeme x]) :
    Forms n N (form <$> advance) fun b qs => qs = [.construct (y b)] := by
  refine fun start => builds_advance_first hN (.wrap (h _).2 (fun ls hfills => ?_) (builds_done rfl))
  have hls : ls = [x] := Fills.eq_of_words hfills
  rw [(h _).1, hls]
  rfl

/-! ### Loops -/

/-- How a turn ends that had at most `k` lexemes in front of it: before another turn there are
fewer. -/
def Turn.Builds (I : ψ → List (Part σ) → List Lexeme → Prop) (R : α → List (Part σ) → Prop)
    (k : Nat) (rest : List Lexeme) : Turn ψ α → List (Part σ) → Prop
  | .again s, qs => rest.length < k ∧ I s qs rest
  | .leave a, qs => R a qs

/-- A loop carries an invariant of its state, the parts on the stack and what is in front of it from
turn to turn, if every turn reads something before another one. -/
theorem builds_loop_before {turn : ψ → Parser (Turn ψ α)}
    (I : ψ → List (Part σ) → List Lexeme → Prop)
    (hturn : ∀ k < n, ∀ s qs,
      Builds (k + 1) (I s qs) start qs (turn s) (Turn.Builds I R k)) {s : ψ}
    (hs : ∀ rest, N rest → I s ps rest) : Builds n N start ps (loop turn s) fun _ => R := by
  intro c ls hlength hN hfills hposition
  show (loopRun turn s c).Builds start ls c.rest fun _ => R
  replace hs := hs c.rest hN
  clear hN
  fun_induction loopRun turn s c generalizing ps ls with
  | case1 s c i cause hrun =>
    have hr := hturn _ hlength s ps c ls (Nat.lt_succ_self _) hs hfills hposition
    rwa [hrun] at hr
  | case2 s c a d hrun =>
    have hr := hturn _ hlength s ps c ls (Nat.lt_succ_self _) hs hfills hposition
    rwa [hrun] at hr
  | case3 s c s' d hrun hlt ih =>
    have hr := hturn _ hlength s ps c ls (Nat.lt_succ_self _) hs hfills hposition
    have hafter := (turn s).after c
    rw [hrun] at hr hafter
    obtain ⟨qs, ms, hms, hqs, hless, hs'⟩ := hr
    have hd := Cursor.Reaches.position_eq hafter hms
    rw [hms]
    refine .past (ih (ls ++ ms) (Nat.lt_trans hless hlength) hqs ?_ hs')
    rw [List.length_append]
    omega
  | case4 s c s' d hrun hlt =>
    -- fewer lexemes are left than before, so the turn has moved on
    have hr := hturn _ hlength s ps c ls (Nat.lt_succ_self _) hs hfills hposition
    have hafter := (turn s).after c
    rw [hrun] at hr hafter
    obtain ⟨qs, ms, hms, -, hless, -⟩ := hr
    have hd := Cursor.Reaches.position_eq hafter hms
    rw [hms, List.length_append] at hless
    omega

/-- The invariant need not speak of what is in front of the loop. -/
theorem builds_loop {turn : ψ → Parser (Turn ψ α)} (I : ψ → List (Part σ) → Prop)
    (hturn : ∀ k < n, ∀ s qs, I s qs →
      Builds (k + 1) Always start qs (turn s) (Turn.Builds (fun s qs _ => I s qs) R k)) {s : ψ}
    (hs : I s ps) : Builds n N start ps (loop turn s) fun _ => R :=
  builds_loop_before (fun s qs _ => I s qs)
    (fun k hk s qs c ls hlength hI => hturn k hk s qs hI c ls hlength trivial) fun _ _ => hs

/-- A turn that has read something is followed by another one. -/
theorem builds_again {I : ψ → List (Part σ) → Prop} {k : Nat} {s : ψ} (hn : n ≤ k) (hs : I s ps) :
    Builds n N start ps (pure (.again s)) (Turn.Builds (fun s qs _ => I s qs) R k) :=
  builds_pure fun _ hrest _ => ⟨by omega, hs⟩

theorem builds_leave {I : ψ → List (Part σ) → List Lexeme → Prop} {k : Nat} {a : α} (ha : R a ps) :
    Builds n N start ps (pure (.leave a)) (Turn.Builds I R k) :=
  builds_pure fun _ _ _ => ha

end Rules

end EnsembleCompiler.Target
