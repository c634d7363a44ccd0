import Mathlib.Order.Lattice
import EnsembleCompiler.Proofs.Target.Joining
import EnsembleCompiler.Proofs.Target.Progress
import EnsembleCompiler.Proofs.Target.Spans

/-!
# Texts behind each other

Two accepted texts with a line feed between them are an accepted text, if the second has no inner
attributes: its items are those of the first and then those of the second, with their spans moved.
The parser reads in front of the second text what it reads of the first alone, since no attribute and
no item looks behind its last lexeme, and goes on in the second where it would begin.

The two are read with ordinals in place of spans: a number of lexemes further on, an ordinal is larger
by that number. What the ordinals of a construct are decides what its span is.

Main statement: `parse_concatenated`.
-/

namespace EnsembleCompiler.Target

open Target.Parser Grammar

variable {α β κ σ τ : Type} {c d : Cursor} {a : α} {s : κ} {turn : κ → Parser (Turn κ α)}

/-! ### Loops that collect what they read -/

/-- The last turn of a loop, with what all turns before it have kept true. -/
theorem loop_last {I : κ → Cursor → Prop} (hs : I s c)
    (hturn : ∀ {s t c d}, I s c → (turn s).run c = .done (.again t) d → c.position < d.position →
      I t d)
    (h : (loop turn s).run c = .done a d) : ∃ t e, I t e ∧ (turn t).run e = .done (.leave a) d := by
  have hloop : loopRun turn s c = .done a d := h
  clear h
  fun_induction loopRun turn s c with
  | case1 s c i cause hrun => cases hloop
  | case2 s c b e hrun =>
    cases hloop
    exact ⟨s, c, hs, hrun⟩
  | case3 s c t e hrun hlt ih => exact ih (hturn hs hrun hlt) hloop
  | case4 s c t e hrun hlt => cases hloop

/-- Turns that read one more by `p` as long as `next` holds of what follows. -/
structure Collects (next : List Lexeme → Prop) (p : Parser α)
    (turn : List α → Parser (Turn (List α) (List α))) : Prop where
  more : ∀ {as c}, next c.rest → (turn as).run c = (p >>= fun a => pure (.again (a :: as))).run c
  leaves : ∀ {as c}, ¬ next c.rest → (turn as).run c = .done (.leave as.reverse) c

namespace Collects

variable {next : List Lexeme → Prop} {p : Parser α} {as bs : List α}
  {turn : List α → Parser (Turn (List α) (List α))}

theorem of_again (h : Collects next p turn) (hrun : (turn as).run c = .done (.again bs) d) :
    next c.rest ∧ ∃ a, p.run c = .done a d ∧ bs = a :: as := by
  by_cases hnext : next c.rest
  · rw [h.more hnext] at hrun
    obtain ⟨a, e, hp, hpure⟩ := bind_done hrun
    cases hpure
    exact ⟨hnext, a, hp, rfl⟩
  · rw [h.leaves hnext] at hrun
    cases hrun

theorem of_leave (h : Collects next p turn) (hrun : (turn as).run c = .done (.leave bs) d) :
    ¬ next c.rest ∧ bs = as.reverse ∧ d = c := by
  by_cases hnext : next c.rest
  · rw [h.more hnext] at hrun
    obtain ⟨a, e, hp, hpure⟩ := bind_done hrun
    cases hpure
  · rw [h.leaves hnext] at hrun
    cases hrun
    exact ⟨hnext, rfl, rfl⟩

theorem stops (h : Collects next p turn) (hnext : ¬ next c.rest) :
    (loop turn as).run c = .done as.reverse c := run_loop_leave (h.leaves hnext)

theorem length_le (h : Collects next p turn) (hrun : (loop turn as).run c = .done bs d) :
    as.length ≤ bs.length := by
  obtain ⟨cs, e, hle, hlast⟩ := loop_last (I := fun cs _ => as.length ≤ cs.length) (Nat.le_refl _)
    (fun {cs ds e e'} hle hagain _ => by
      obtain ⟨-, a, -, rfl⟩ := h.of_again hagain
      exact Nat.le_succ_of_le hle) hrun
  obtain ⟨-, rfl, -⟩ := h.of_leave hlast
  rwa [List.length_reverse]

/-- Where the loop has an end, what comes first is read. -/
theorem first (h : Collects next p turn) (hrun : (loop turn as).run c = .done bs d)
    (hnext : next c.rest) : ∃ a e, p.run c = .done a e ∧ (loop turn (a :: as)).run e = .done bs d := by
  have hloop : loopRun turn as c = .done bs d := hrun
  rw [loopRun] at hloop
  split at hloop
  · cases hloop
  · next hleave => exact absurd hnext (h.of_leave hleave).1
  · next hagain =>
    obtain ⟨-, a, hp, rfl⟩ := h.of_again hagain
    split at hloop
    · exact ⟨a, _, hp, hloop⟩
    · cases hloop

/-- If nothing has been read, nothing was there. -/
theorem of_nil (h : Collects next p turn) (hrun : (loop turn []).run c = .done [] d) :
    ¬ next c.rest ∧ d = c := by
  have hnext : ¬ next c.rest := fun hnext => by
    obtain ⟨a, e, -, hmore⟩ := h.first hrun hnext
    exact absurd (h.length_le hmore) (by simp)
  rw [h.stops hnext] at hrun
  cases hrun
  exact ⟨hnext, rfl⟩

/-- In front of other lexemes, the loop reads what it reads without them and goes on behind it. -/
theorem goes_on [Places σ] {v : Surroundings σ σ} (h : Collects next p turn) {φ : α → α} (hp : Seals v Always (Becomes φ) p p)
    (hmore : ∀ ls, next ls → next (ls ++ v.behind)) (hrun : (loop turn as).run c = .done bs d) :
    ¬ next d.rest ∧ (loop turn (as.map φ)).run (c.within v) =
      (loop turn (bs.map φ).reverse).run (d.within v) := by
  obtain ⟨cs, e, hsame, hlast⟩ := loop_last
    (I := fun cs e => (loop turn (as.map φ)).run (c.within v) = (loop turn (cs.map φ)).run (e.within v))
    rfl (fun {cs ds e e'} hsame hagain hlt => by
      obtain ⟨hnext, a, hread, rfl⟩ := h.of_again hagain
      obtain ⟨_, hwithin, rfl⟩ := hp.reads trivial hread
      have hturn : (turn (cs.map φ)).run (e.within v) =
          .done (.again (φ a :: cs.map φ)) (e'.within v) := by
        rw [h.more (hmore _ hnext), run_bind_done hwithin]
        rfl
      rw [hsame, run_loop_again hturn (Nat.add_lt_add_right hlt _), List.map_cons]) hrun
  obtain ⟨hnext, rfl, rfl⟩ := h.of_leave hlast
  rw [List.map_reverse, List.reverse_reverse]
  exact ⟨hnext, hsame⟩

end Collects

/-! ### Files -/

/-- An inner attribute comes next. -/
def BeginsInner (ls : List Lexeme) : Prop :=
  ls[0]? = some (Lexeme.symbol .hash) ∧ ls[1]? = some (Lexeme.symbol .bang)

theorem BeginsInner.append {ls : List Lexeme} (h : BeginsInner ls) (ms : List Lexeme) :
    BeginsInner (ls ++ ms) :=
  have hfirst := (List.getElem?_eq_some_iff.1 h.1).1
  have hsecond := (List.getElem?_eq_some_iff.1 h.2).1
  ⟨(List.getElem?_append_left hfirst).trans h.1, (List.getElem?_append_left hsecond).trans h.2⟩

/-- The attributes of the first file, and the items of both. -/
def File.join (first second : File σ) : File σ :=
  ⟨first.attributes, first.items ++ second.items⟩

theorem File.map_join (f : σ → τ) (first second : File σ) :
    (first.join second).map f = (first.map f).join (second.map f) := by
  simp only [join, map, Item.mapAll_eq, List.map_append]

section Files

variable [Places σ] {v : Surroundings σ σ} {item : Parser (Item σ)} {items : List (Item σ)}

/-- One turn of the loop over inner attributes. -/
def innerTurn (as : List (Attribute σ)) : Parser (Turn (List (Attribute σ)) (List (Attribute σ))) := do
  let (here, next) ← look
  if here = some (Lexeme.symbol .hash) && next = some (Lexeme.symbol .bang) then
    return .again ((← attr) :: as)
  else return .leave as.reverse

theorem innerAttributes_eq :
    (innerAttributes : Parser (List (Attribute σ))) = loop innerTurn [] := rfl

theorem collects_innerTurn : Collects BeginsInner (attr : Parser (Attribute σ)) innerTurn where
  more {as c} hnext := by
    have hrun : (innerTurn as).run c = _ := run_bind_done rfl _
    simpa [hnext.1, hnext.2] using hrun
  leaves {as c} hnext := by
    have hrun : (innerTurn as).run c = _ := run_bind_done rfl _
    rw [hrun]
    dsimp only
    split
    · next hbegins => exact absurd (by simpa [BeginsInner] using hbegins) hnext
    · rfl

omit [Places σ] in
theorem collects_itemTurn (item : Parser (Item σ)) : Collects (· ≠ []) item (itemTurn item) where
  more {items c} hnext := by
    obtain ⟨i, _ | ⟨x, ls⟩⟩ := c
    · exact absurd rfl hnext
    · rfl
  leaves {items c} hnext := by
    obtain ⟨i, _ | ⟨x, ls⟩⟩ := c
    · rfl
    · exact absurd (List.cons_ne_nil x ls) hnext

/-- No item looks behind its last lexeme, so that what begins behind a file does not begin in it. -/
theorem not_beginsInner (hitem : Seals v Always (Becomes (Item.map v.place)) item item)
    (hbehind : ¬ BeginsInner v.behind) (hrun : (loop (itemTurn item) []).run c = .done items d)
    (hrest : ¬ BeginsInner c.rest) : ¬ BeginsInner (c.rest ++ v.behind) := by
  by_cases hnil : c.rest = []
  · rwa [hnil, List.nil_append]
  · -- an item comes first, which hides what stands behind the file, at least from its first lexeme
    obtain ⟨i, e, hfirst, -⟩ := (collects_itemTurn item).first hrun hnil
    have hhides : Hides v c.rest := hitem.hides trivial hfirst
    rintro ⟨hhash, hbang⟩
    rw [hhides.first] at hhash
    have hsecond := hhides.second
    rw [hhash] at hsecond
    exact hrest ⟨hhash, (hsecond.eq_of rfl).trans hbang⟩

/-- In front of a file without inner attributes, those of another file are read and no more. -/
theorem run_innerAttributes_front {as : List (Attribute σ)} {e : Cursor}
    (hitem : Seals v Always (Becomes (Item.map v.place)) item item) (hbehind : ¬ BeginsInner v.behind)
    (hattributes : innerAttributes.run c = .done as e)
    (hitems : (loop (itemTurn item) []).run e = .done items d) :
    innerAttributes.run (c.within v) = .done (as.map (Attribute.map v.place)) (e.within v) := by
  rw [innerAttributes_eq] at hattributes
  obtain ⟨hrest, hfront⟩ := collects_innerTurn.goes_on (v := v) seals_attr
    (fun _ hbegins => hbegins.append v.behind) hattributes
  rw [← List.reverse_reverse (as.map _)]
  exact hfront.trans (collects_innerTurn.stops (not_beginsInner hitem hbehind hitems hrest))

/-- The parts of a run over a file. -/
theorem runs_of_fileWithin {levels : Nat} {ls : List Lexeme} {file : File σ}
    (h : fileWithin levels ls = .done file d) : ∃ e,
      innerAttributes.run ⟨0, ls⟩ = .done file.attributes e ∧
      (loop (itemTurn (Grammar.parse levels .item)) []).run e = .done file.items ⟨ls.length, []⟩ := by
  obtain rfl := cursor_of_file h
  unfold fileWithin at h
  rw [file_eq] at h
  obtain ⟨attributes, e, hattributes, h⟩ := bind_done h
  obtain ⟨items, e', hitems, hpure⟩ := bind_done h
  cases hpure
  exact ⟨e, hattributes, hitems⟩

end Files

/-! ### Ordinals -/

/-- A stretch of lexemes, by the ordinals of its first and its last one, counted from one. -/
structure Stretch where
  first : Nat
  last : Nat

/-- The stretch with so many more lexemes in front of it. -/
def Stretch.shift (r : Stretch) (n : Nat) : Stretch := ⟨r.first + n, r.last + n⟩

instance : LawfulPlaces Stretch where
  token i := ⟨i + 1, i + 1⟩
  merge r s := ⟨min r.first s.first, max r.last s.last⟩
  dummy := ⟨0, 0⟩
  extent i j := ⟨i + 1, j⟩
  token_eq _ := rfl
  merge_extent {i j k l} _ _ hik hjl := by
    rw [Nat.min_eq_left (Nat.succ_le_succ hik), Nat.max_eq_right hjl]

theorem Stretch.token_eq (i : Nat) : (Places.token i : Stretch) = ⟨i + 1, i + 1⟩ := rfl

theorem Stretch.before_eq (i : Nat) : (Places.before i : Stretch) = ⟨i, i⟩ := by
  cases i <;> rfl

theorem Stretch.shift_merge (r s : Stretch) (n : Nat) :
    (Places.merge r s).shift n = Places.merge (r.shift n) (s.shift n) := by
  show Stretch.mk _ _ = Stretch.mk _ _
  congr 1
  · exact (Nat.add_min_add_right r.first s.first n).symm
  · exact (Nat.add_max_add_right r.last s.last n).symm

/-- The same lexemes between others. -/
def Surroundings.between (before : Nat) (behind : List Lexeme) : Surroundings Stretch Stretch where
  before := before
  behind := behind
  levels := 0
  place r := r.shift before
  place_token i := by
    rw [Stretch.token_eq, Stretch.token_eq, Stretch.shift, Nat.add_right_comm]
  place_before i := by
    rw [Stretch.before_eq, Stretch.before_eq, Stretch.shift]
  place_merge r s := r.shift_merge s before

/-- The items of a file are read up to where another one begins, and then its items. -/
theorem run_items_append {item : Parser (Item Stretch)} {n : Nat} {ms : List Lexeme}
    {items items' : List (Item Stretch)}
    (hitem : ∀ v : Surroundings Stretch Stretch, v.levels = 0 →
      Seals v Always (Becomes (Item.map v.place)) item item)
    (hitems : (loop (itemTurn item) []).run c = .done items ⟨n, []⟩)
    (hitems' : (loop (itemTurn item) []).run ⟨0, ms⟩ = .done items' ⟨ms.length, []⟩) :
    (loop (itemTurn item) []).run (c.within (.between 0 ms)) =
      .done (items.map (Item.map (·.shift 0)) ++ items'.map (Item.map (·.shift n)))
        ⟨ms.length + n, []⟩ := by
  obtain ⟨-, hfront⟩ := (collects_itemTurn item).goes_on (hitem (.between 0 ms) rfl)
    (fun _ hne => List.append_ne_nil_of_left_ne_nil hne _) hitems
  have hjoint : Cursor.within (.between 0 ms) ⟨n, []⟩ = Cursor.within (.between n []) ⟨0, ms⟩ := by
    simp [Cursor.within, Surroundings.between]
  -- what is behind the first file is read as it is by itself, with that file in front of it
  have hmirrors : Mirrors (.between n []) Always _ _ _ := mirrors_items (hitem (.between n []) rfl)
    (items.map (Item.map (·.shift 0))).reverse
  obtain ⟨_, hbehind, rfl⟩ := hmirrors.reads trivial hitems' (.inl rfl)
  rw [hjoint] at hfront
  rw [List.reverse_reverse] at hbehind
  exact hfront.trans hbehind

/-- Behind one file, another one is read as if it began there. -/
theorem fileWithin_append {levels : Nat} {ls ms : List Lexeme} {first second : File Stretch}
    {d' : Cursor} (h : fileWithin levels ls = .done first d)
    (h' : fileWithin levels ms = .done second d') (hnone : second.attributes = []) :
    ∃ e, fileWithin levels (ls ++ ms) =
      .done ((first.map (·.shift 0)).join (second.map (·.shift ls.length))) e := by
  obtain ⟨e, hattributes, hitems⟩ := runs_of_fileWithin h
  obtain ⟨e', hattributes', hitems'⟩ := runs_of_fileWithin h'
  rw [hnone, innerAttributes_eq] at hattributes'
  obtain ⟨hbehind, rfl⟩ := collects_innerTurn.of_nil hattributes'
  have hitem (v : Surroundings Stretch Stretch) (hlevels : v.levels = 0) :
      Seals v Always (Becomes (Item.map v.place)) (Grammar.parse levels .item)
        (Grammar.parse levels .item) := by
    have hmirrored := (mirrored_parse v levels).item
    rwa [hlevels] at hmirrored
  have hfront : innerAttributes.run ⟨0, ls ++ ms⟩ = _ :=
    run_innerAttributes_front (hitem (.between 0 ms) rfl) hbehind hattributes hitems
  refine ⟨⟨ms.length + ls.length, []⟩, ?_⟩
  unfold fileWithin
  rw [file_eq, run_bind_done hfront, run_bind_done (run_items_append hitem hitems hitems')]
  simp only [File.join, File.map, Item.mapAll_eq]
  rfl

/-- The lexemes of two files, one behind the other, are those of one. -/
theorem ofLexemes_append {ls ms : List Lexeme} {first second : File Stretch}
    (h : File.ofLexemes ls = .ok first) (h' : File.ofLexemes ms = .ok second)
    (hnone : second.attributes = []) : File.ofLexemes (ls ++ ms) =
      .ok ((first.map (·.shift 0)).join (second.map (·.shift ls.length))) := by
  -- all three are read with levels that are enough for the whole
  have hlevels : (ls ++ ms).length < ls.length + ms.length + 1 := by
    rw [List.length_append]
    omega
  have hfirst : ls.length < ls.length + ms.length + 1 := by omega
  have hsecond : ms.length < ls.length + ms.length + 1 := by omega
  rw [ofLexemes_eq hfirst, Reply.result_eq_ok] at h
  rw [ofLexemes_eq hsecond, Reply.result_eq_ok] at h'
  rw [ofLexemes_eq hlevels, Reply.result_eq_ok]
  obtain ⟨d, h⟩ := h
  obtain ⟨d', h'⟩ := h'
  exact fileWithin_append h h' hnone

/-- The ordinals of a construct are those of lexemes of the text. -/
theorem ordinals_of_holds {ls : List Lexeme} {tree : File Stretch} (h : File.ofLexemes ls = .ok tree)
    {x : Construct Stretch} (hx : tree.Holds x) :
    ∃ i j, x.place = ⟨i + 1, j + 1⟩ ∧ i < ls.length ∧ j < ls.length := by
  obtain ⟨before, ms, after, rfl, hms⟩ := (fills_of_ofLexemes h).holds hx
  obtain ⟨parts, hmade, hparts, hplace⟩ := hms.of_one
  have hpos := List.length_pos_iff.2 (hparts.ne_nil hmade.ne_nil)
  -- a construct fills a stretch that is not empty: its ordinals are those of the first and the last
  -- lexeme
  refine ⟨before.length, before.length + ms.length - 1, ?_, ?_, ?_⟩
  · rw [hplace, Nat.sub_add_cancel (by omega)]
    rfl
  all_goals
    rw [List.length_append, List.length_append]
    omega

/-! ### Spans -/

/-- The span of the token with this ordinal; there is none with the ordinal zero. -/
def Scan.spanAt (s : Scan) (ordinal : Nat) : Span :=
  let := spans s.tokens.toArray s.stop
  Places.before ordinal

/-- The span of a stretch of tokens. -/
def Scan.spanOf (s : Scan) (r : Stretch) : Span := ⟨(s.spanAt r.first).start, (s.spanAt r.last).stop⟩

namespace Scan.InOrder

variable {s : Scan} (hs : s.InOrder)

include hs

theorem monotone_start : Monotone fun ordinal => (s.spanAt ordinal).start := by
  intro i j h
  cases i with
  | zero => exact Nat.zero_le _
  | succ i =>
    obtain ⟨j, rfl⟩ : ∃ k, j = k + 1 := ⟨j - 1, by omega⟩
    exact hs.startOf_mono (Nat.le_of_succ_le_succ h)

theorem monotone_stop : Monotone fun ordinal => (s.spanAt ordinal).stop := by
  intro i j h
  cases i with
  | zero => exact Nat.zero_le _
  | succ i =>
    obtain ⟨j, rfl⟩ : ∃ k, j = k + 1 := ⟨j - 1, by omega⟩
    exact hs.stopOf_mono (Nat.le_of_succ_le_succ h)

/-- The tree of a text is that of its lexemes, with spans in place of ordinals. -/
theorem ofLexemes_spans (ls : List Lexeme) :
    @File.ofLexemes Span (spans s.tokens.toArray s.stop) ls =
      (File.ofLexemes ls : Except SyntaxError (File Stretch)).map (File.map s.spanOf) := by
  let := spans s.tokens.toArray s.stop
  let v : Surroundings Stretch Span :=
    { before := 0
      behind := []
      levels := 0
      place := s.spanOf
      place_token := fun i => rfl
      place_before := fun i => by cases i <;> rfl
      -- spans of tokens grow with their ordinals, so the merged stretch has the merged span
      place_merge := fun r r' => by
        show Span.mk _ _ = Span.mk _ _
        congr 1
        · exact hs.monotone_start.map_min
        · exact hs.monotone_stop.map_max }
  exact ofLexemes_replaced (v := v) ⟨rfl, rfl⟩ rfl ls

end Scan.InOrder

/-- An accepted text has a tree with ordinals. -/
theorem ordinals_of_parse {source : String} {file : File Span} (h : parse source = .ok file) :
    (scan source).faults = [] ∧ ∃ tree : File Stretch,
      File.ofLexemes (lexemesOf source) = .ok tree ∧ file = tree.map (scan source).spanOf := by
  obtain ⟨hfaults, hfile⟩ := Scan.ofLexemes_of_tree h
  refine ⟨hfaults, ?_⟩
  rw [(inOrder_scan hfaults).ofLexemes_spans] at hfile
  cases htree : (File.ofLexemes (lexemesOf source) : Except SyntaxError (File Stretch)) with
  | ok tree =>
    rw [show (scan source).tokens.map (·.lexeme) = lexemesOf source from rfl, htree] at hfile
    exact ⟨tree, rfl, (Except.ok.inj hfile).symm⟩
  | error e =>
    rw [show (scan source).tokens.map (·.lexeme) = lexemesOf source from rfl, htree] at hfile
    cases hfile

theorem parse_of_ordinals {source : String} {tree : File Stretch}
    (hfaults : (scan source).faults = []) (h : File.ofLexemes (lexemesOf source) = .ok tree) :
    parse source = .ok (tree.map (scan source).spanOf) := by
  show (scan source).tree = _
  rw [Scan.tree_eq hfaults, (inOrder_scan hfaults).ofLexemes_spans]
  rw [show (scan source).tokens.map (·.lexeme) = lexemesOf source from rfl, h]
  rfl

section Behind

variable {s s' : Scan} {n i : Nat}

/-- Tokens in front of others are where they are without them. -/
theorem spanAt_front (hi : i < s.tokens.length) :
    (s'.behind s.tokens n).spanAt (i + 1) = s.spanAt (i + 1) := by
  have htoken : (s'.behind s.tokens n).tokens.toArray[i]? = s.tokens.toArray[i]? := by
    rw [List.getElem?_toArray, List.getElem?_toArray]
    exact List.getElem?_append_left hi
  have hsome : s.tokens.toArray[i]? = some s.tokens[i] := by simp [hi]
  show Span.mk (startOf _ _ i) (stopOf _ _ i) = Span.mk (startOf _ _ i) (stopOf _ _ i)
  simp only [startOf, stopOf, htoken, hsome]

/-- Tokens behind others are where they are without them, and further on. -/
theorem spanAt_behind : (s'.behind s.tokens n).spanAt (i + 1 + s.tokens.length) =
    (s'.spanAt (i + 1)).shift n := by
  have htoken : (s'.behind s.tokens n).tokens.toArray[i + s.tokens.length]? =
      (s'.tokens.toArray[i]?).map (·.shift n) := by
    rw [List.getElem?_toArray, List.getElem?_toArray]
    unfold Scan.behind
    rw [List.getElem?_append_right (Nat.le_add_left _ _), Nat.add_sub_cancel, List.getElem?_map]
  rw [Nat.add_right_comm]
  show Span.mk (startOf _ _ _) (stopOf _ _ _) = Span.mk (startOf _ _ i + n) (stopOf _ _ i + n)
  simp only [startOf, stopOf, htoken]
  cases s'.tokens.toArray[i]? <;> rfl

/-- The tree of tokens in front of others has the spans that it has without them. -/
theorem File.map_front {tree : File Stretch}
    (h : File.ofLexemes (s.tokens.map (·.lexeme)) = .ok tree) :
    (tree.map (·.shift 0)).map (s'.behind s.tokens n).spanOf = tree.map s.spanOf := by
  rw [File.map_map]
  refine File.map_congr fun x hx => ?_
  obtain ⟨i, j, hplace, hi, hj⟩ := ordinals_of_holds h hx
  rw [List.length_map] at hi hj
  rw [hplace]
  simp only [Function.comp_apply, Stretch.shift, Nat.add_zero, Scan.spanOf, spanAt_front hi,
    spanAt_front hj]

/-- The tree of tokens behind others has its spans further on. -/
theorem File.map_behind {tree : File Stretch}
    (h : File.ofLexemes (s'.tokens.map (·.lexeme)) = .ok tree) :
    (tree.map (·.shift s.tokens.length)).map (s'.behind s.tokens n).spanOf =
      (tree.map s'.spanOf).map (·.shift n) := by
  rw [File.map_map, File.map_map]
  refine File.map_congr fun x hx => ?_
  obtain ⟨i, j, hplace, -, -⟩ := ordinals_of_holds h hx
  rw [hplace]
  simp only [Function.comp_apply, Stretch.shift, Scan.spanOf, spanAt_behind, Span.shift]

end Behind

/-- **Parsing distributes over concatenation.** If two texts are accepted, and the second has no
inner attributes, the two with a line feed between them are accepted: the attributes are those of the
first, the items those of the first and then those of the second, and all spans of the second are
moved by the length of the first and one. -/
theorem parse_concatenated {source source' : String} {first second : File Span}
    (h : parse source = .ok first) (h' : parse source' = .ok second) (hnone : second.attributes = []) :
    parse (source ++ "\n" ++ source') = .ok ⟨first.attributes,
      first.items ++ second.items.map (Item.map (·.shift (source.utf8ByteSize + 1)))⟩ := by
  obtain ⟨hfaults, tree, htree, rfl⟩ := ordinals_of_parse h
  obtain ⟨hfaults', tree', htree', rfl⟩ := ordinals_of_parse h'
  have hscan := scan_joined hfaults source'
  have hfaults'' : (scan (source ++ "\n" ++ source')).faults = [] := by
    rw [hscan, Scan.behind, hfaults']
    rfl
  have hlexemes : lexemesOf (source ++ "\n" ++ source') = lexemesOf source ++ lexemesOf source' := by
    unfold lexemesOf
    rw [hscan, Scan.behind, List.map_append, List.map_map]
    rfl
  have htree'' := ofLexemes_append htree htree' (List.map_eq_nil_iff.1 hnone)
  have hlength : (lexemesOf source).length = (scan source).tokens.length := List.length_map _
  rw [← hlexemes, hlength] at htree''
  rw [parse_of_ordinals hfaults'' htree'', File.map_join, hscan, File.map_front htree,
    File.map_behind htree', ← Item.mapAll_eq]
  rfl

/-- A line comment at the end of the first text does not reach into the second. -/
theorem parse_concatenated_comment :
    ∃ first second, parse "#![a] mod b; // é" = .ok first ∧ parse "fn f() \x7b\x7d" = .ok second ∧
      second.attributes = [] ∧ first.items.map Item.place = [⟨6, 12⟩] ∧
      second.items.map Item.place = [⟨0, 9⟩] ∧
      parse "#![a] mod b; // é\nfn f() \x7b\x7d" = .ok ⟨first.attributes,
        first.items ++ second.items.map (Item.map (·.shift 19))⟩ := by
  have hfirst : (parse "#![a] mod b; // é").toOption.map (fun file => file.items.map Item.place) =
      some [⟨6, 12⟩] := by decide +kernel
  have hsecond : (parse "fn f() \x7b\x7d").toOption.map
      (fun file => (file.attributes, file.items.map Item.place)) = some ([], [⟨0, 9⟩]) := by
    decide +kernel
  have htext : "#![a] mod b; // é" ++ "\n" ++ "fn f() \x7b\x7d" =
      "#![a] mod b; // é\nfn f() \x7b\x7d" := by decide +kernel
  have hlength : "#![a] mod b; // é".utf8ByteSize + 1 = 19 := by decide +kernel
  cases h : parse "#![a] mod b; // é" with
  | error diagnostics => rw [h] at hfirst; cases hfirst
  | ok first =>
    cases h' : parse "fn f() \x7b\x7d" with
    | error diagnostics => rw [h'] at hsecond; cases hsecond
    | ok second =>
      rw [h] at hfirst
      rw [h'] at hsecond
      obtain ⟨hnone, hplaces⟩ := Prod.mk.inj (Option.some.inj hsecond)
      have hboth := parse_concatenated h h' hnone
      rw [htext, hlength] at hboth
      exact ⟨first, second, rfl, rfl, hnone, Option.some.inj hfirst, hplaces, hboth⟩

end EnsembleCompiler.Target
