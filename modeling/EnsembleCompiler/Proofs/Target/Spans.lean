import EnsembleCompiler.Proofs.Target.Holding
import EnsembleCompiler.Proofs.Target.ItemParts
import EnsembleCompiler.Proofs.Target.Tiling

/-!
# The spans of a syntax tree

The outermost constructs of a file fill its lexemes, and with them every construct in it fills a
stretch, from the first lexeme of which its span begins and with the last of which it ends. So the
constructs inside another one lie inside its span, apart from each other and in order.
-/

namespace EnsembleCompiler.Target

variable {σ : Type}

/-! ### Stretches inside each other -/

section Stretches

variable {place : Nat → Nat → σ} {start : Nat} {ls : List Lexeme}

/-- What is inside the constructs of a file fills a stretch of its lexemes, too. -/
theorem Fills.holds {file : File σ} (h : Fills place (file.children.map .construct) 0 ls)
    {x : Construct σ} (hx : file.Holds x) : ∃ before ms after, ls = before ++ (ms ++ after) ∧
      Fills place [.construct x] before.length ms := by
  induction hx with
  | outermost hx =>
    obtain ⟨before, ms, after, hls, hms⟩ := h.exists_stretch (by simpa using hx)
    rw [Nat.zero_add] at hms
    exact ⟨before, ms, after, hls, hms⟩
  | inside _ hy ih =>
    obtain ⟨before, ms, after, rfl, hms⟩ := ih
    obtain ⟨inner, hmade, hinner, -⟩ := hms.of_one
    obtain ⟨before', ks, after', rfl, hks⟩ :=
      hinner.exists_stretch (hmade.children_sublist.subset hy)
    refine ⟨before ++ before', ks, after' ++ after, by simp, ?_⟩
    rwa [List.length_append]

end Stretches

/-! ### The places of tokens -/

/-- The tokens follow each other, none of them empty, up to the end of the text. -/
structure Scan.InOrder (s : Scan) : Prop where
  ordered : s.tokens.Pairwise fun t u => t.span.stop ≤ u.span.start
  proper : ∀ t ∈ s.tokens, t.span.start < t.span.stop
  inside : ∀ t ∈ s.tokens, t.span.stop ≤ s.stop

theorem inOrder_scan {source : String} (h : (scan source).faults = []) : (scan source).InOrder where
  ordered := (tiles_scan h).ordered
  proper t ht := ((tiles_scan h).bounds t ht).2.1
  inside t ht := by
    rw [stop_scan h]
    exact ((tiles_scan h).bounds t ht).2.2

/-- The span of the tokens from index `i` up to `j`. -/
def tokenSpan (s : Scan) (i j : Nat) : Span :=
  ⟨startOf s.tokens.toArray s.stop i, stopOf s.tokens.toArray s.stop (j - 1)⟩

section Runs

variable {s : Scan}

theorem startOf_eq {i : Nat} (hi : i < s.tokens.length) :
    startOf s.tokens.toArray s.stop i = s.tokens[i].span.start := by
  simp [startOf, hi]

theorem stopOf_eq {i : Nat} (hi : i < s.tokens.length) :
    stopOf s.tokens.toArray s.stop i = s.tokens[i].span.stop := by
  simp [stopOf, hi]

theorem startOf_end {i : Nat} (hi : s.tokens.length ≤ i) :
    startOf s.tokens.toArray s.stop i = s.stop := by
  simp [startOf, hi]

theorem stopOf_end {i : Nat} (hi : s.tokens.length ≤ i) :
    stopOf s.tokens.toArray s.stop i = s.stop := by
  simp [stopOf, hi]

namespace Scan.InOrder

variable (hs : s.InOrder) {i j k l : Nat}

include hs

theorem startOf_le_stopOf (i : Nat) :
    startOf s.tokens.toArray s.stop i ≤ stopOf s.tokens.toArray s.stop i := by
  by_cases hi : i < s.tokens.length
  · rw [startOf_eq hi, stopOf_eq hi]
    exact Nat.le_of_lt (hs.proper _ (List.getElem_mem hi))
  · rw [startOf_end (by omega), stopOf_end (by omega)]

theorem stopOf_le_stop (i : Nat) : stopOf s.tokens.toArray s.stop i ≤ s.stop := by
  by_cases hi : i < s.tokens.length
  · rw [stopOf_eq hi]
    exact hs.inside _ (List.getElem_mem hi)
  · rw [stopOf_end (by omega)]

/-- A token ends before the next one begins. -/
theorem stopOf_le_startOf (h : i < j) :
    stopOf s.tokens.toArray s.stop i ≤ startOf s.tokens.toArray s.stop j := by
  by_cases hj : j < s.tokens.length
  · have hi : i < s.tokens.length := by omega
    rw [stopOf_eq hi, startOf_eq hj]
    exact List.pairwise_iff_getElem.1 hs.ordered i j hi hj h
  · rw [startOf_end (i := j) (by omega)]
    exact hs.stopOf_le_stop i

theorem startOf_mono (h : i ≤ j) :
    startOf s.tokens.toArray s.stop i ≤ startOf s.tokens.toArray s.stop j := by
  rcases Nat.eq_or_lt_of_le h with rfl | hlt
  · exact Nat.le_refl _
  · exact (hs.startOf_le_stopOf i).trans (hs.stopOf_le_startOf hlt)

theorem stopOf_mono (h : i ≤ j) :
    stopOf s.tokens.toArray s.stop i ≤ stopOf s.tokens.toArray s.stop j := by
  rcases Nat.eq_or_lt_of_le h with rfl | hlt
  · exact Nat.le_refl _
  · exact (hs.stopOf_le_startOf hlt).trans (hs.startOf_le_stopOf j)

/-- Merging the spans of two runs of tokens gives that of a longer run. -/
theorem merge_tokenSpan (hik : i ≤ k) (hjl : j ≤ l) :
    (tokenSpan s i j).merge (tokenSpan s k l) = tokenSpan s i l := by
  have hstart := hs.startOf_mono hik
  have hstop := hs.stopOf_mono (i := j - 1) (j := l - 1) (by omega)
  rw [Span.merge, tokenSpan, tokenSpan, Nat.min_eq_left hstart, Nat.max_eq_right hstop]
  rfl

end Scan.InOrder

/-- The places of the tokens are spans of runs of them. -/
@[reducible] def Scan.InOrder.places (hs : s.InOrder) : LawfulPlaces Span where
  toPlaces := spans s.tokens.toArray s.stop
  extent := tokenSpan s
  token_eq _ := rfl
  merge_extent _ _ := hs.merge_tokenSpan

/-- A run of tokens has a span from its first to its last. -/
theorem tokenSpan_run {before run after : List Token} (htokens : s.tokens = before ++ (run ++ after))
    (hrun : run ≠ []) : tokenSpan s before.length (before.length + run.length) =
      ⟨(run.head hrun).span.start, (run.getLast hrun).span.stop⟩ := by
  have hpos := List.length_pos_iff.2 hrun
  have hlength : s.tokens.length = before.length + (run.length + after.length) := by
    rw [htokens, List.length_append, List.length_append]
  have hfirst : before.length < s.tokens.length := by omega
  have hlast : before.length + run.length - 1 < s.tokens.length := by omega
  rw [tokenSpan, startOf_eq hfirst, stopOf_eq hlast]
  simp only [htokens]
  congr 2
  · rw [List.getElem_append_right (Nat.le_refl _), List.getElem_append_left (by omega)]
    simp [List.head_eq_getElem]
  · have hindex : before.length + run.length - 1 - before.length = run.length - 1 := by omega
    rw [List.getElem_append_right (by omega), List.getElem_append_left (by omega)]
    simp only [hindex, List.getLast_eq_getElem]

end Runs

/-! ### Exact spans -/

/-- The constructs stand apart from each other, in the order of the text. -/
def Apart (xs : List (Construct Span)) : Prop :=
  xs.Pairwise fun x y => x.place.stop ≤ y.place.start

/-- The span of a construct goes from the first to the last of the tokens that its parts fill. -/
structure Construct.Exact (s : Scan) (x : Construct Span) : Prop where
  filled : ∃ (before run after : List Token) (parts : List (Part Span)) (hrun : run ≠ []),
    s.tokens = before ++ (run ++ after) ∧
    x.MadeOf parts ∧ Fills (tokenSpan s) parts before.length (run.map (·.lexeme)) ∧
    x.place = ⟨(run.head hrun).span.start, (run.getLast hrun).span.stop⟩
  inside : ∀ y ∈ x.children, x.place.start ≤ y.place.start ∧ y.place.stop ≤ x.place.stop
  apart : Apart x.children

theorem Fills.apart {s : Scan} (hs : s.InOrder) {parts : List (Part Span)} {start : Nat}
    {ls : List Lexeme} (h : Fills (tokenSpan s) parts start ls) : Apart (constructs parts) := by
  refine h.pairwise.imp fun {x y} hxy => ?_
  obtain ⟨i, j, k, l, -, hij, hjk, -, -, hx, hy⟩ := hxy
  rw [hx, hy]
  exact hs.stopOf_le_startOf (show j - 1 < k by omega)

theorem exact_of_fills {s : Scan} (hs : s.InOrder) {x : Construct Span}
    {before ms after : List Lexeme} (hlexemes : s.tokens.map (·.lexeme) = before ++ (ms ++ after))
    (h : Fills (tokenSpan s) [.construct x] before.length ms) : x.Exact s := by
  obtain ⟨parts, hmade, hparts, hplace⟩ := h.of_one
  have hne := hparts.ne_nil hmade.ne_nil
  obtain ⟨start, rest, htokens, rfl, hrest⟩ := List.map_eq_append_iff.1 hlexemes
  obtain ⟨run, stop, rfl, rfl, rfl⟩ := List.map_eq_append_iff.1 hrest
  have hrun : run ≠ [] := by simpa using hne
  rw [List.length_map, List.length_map] at hplace
  rw [List.length_map] at hparts
  refine ⟨⟨start, run, stop, parts, hrun, htokens, hmade, hparts, ?_⟩, fun y hy => ?_, ?_⟩
  · rw [hplace, tokenSpan_run htokens hrun]
  · obtain ⟨before, ks, after, hks, hy⟩ :=
      hparts.exists_stretch (hmade.children_sublist.subset hy)
    obtain ⟨inner, hinner, hfills, hplace'⟩ := hy.of_one
    have hpos := List.length_pos_iff.2 (hfills.ne_nil hinner.ne_nil)
    have hlength := congrArg List.length hks
    simp only [List.length_map, List.length_append] at hlength
    rw [hplace, hplace']
    exact ⟨hs.startOf_mono (by omega), hs.stopOf_mono (by omega)⟩
  · exact List.Pairwise.sublist hmade.children_sublist (hparts.apart hs)

/-- **Spans are exact.** In the tree of an accepted text, the outermost constructs fill all of its
tokens. Every construct in it, at any depth, is made of parts that fill a run of tokens, and its span
goes from the start of the first to the end of the last of them; so the constructs in it lie inside
its span, apart from each other and in the order of the text. There are no other spans in the tree: two
ways to replace spans that agree on those of its constructs give the same tree. -/
theorem parse_spans {source : String} {file : File Span} (h : parse source = .ok file) :
    Fills (tokenSpan (scan source)) (file.children.map .construct) 0 (lexemesOf source) ∧
      Apart file.children ∧ (∀ x, file.Holds x → x.Exact (scan source)) ∧
      ∀ {τ : Type} (f g : Span → τ), (∀ x, file.Holds x → f x.place = g x.place) →
        file.map f = file.map g := by
  obtain ⟨hfaults, hfile⟩ := Scan.ofLexemes_of_tree h
  have hs := inOrder_scan hfaults
  let := hs.places
  have hfills : Fills (tokenSpan (scan source)) (file.children.map .construct) 0
      (lexemesOf source) := fills_of_ofLexemes hfile
  refine ⟨hfills, ?_, fun x hx => ?_, fun f g h => File.map_congr h⟩
  · have hapart := hfills.apart hs
    rwa [constructs_map_construct] at hapart
  · obtain ⟨before, ms, after, hlexemes, hms⟩ := hfills.holds hx
    exact exact_of_fills hs hlexemes hms

/-- An item begins with its attributes, a statement ends with its semicolon, and neither has the
blanks around it. -/
theorem parse_spans_statement :
    let source := "#![a] #[b] fn f(x: [u8; 2]) { let y = x[0] + 1 ; -y } "
    ∃ file, parse source = .ok file ∧
      (∀ x, file.Holds x → x.Exact (scan source)) ∧
      file.children.map Construct.place = [⟨0, 5⟩, ⟨6, 53⟩] ∧
      (file.items.flatMap Item.children).map Construct.place =
        [⟨6, 10⟩, ⟨14, 15⟩, ⟨16, 17⟩, ⟨19, 26⟩, ⟨28, 53⟩] := by
  intro source
  have hspans : (parse source).toOption.map (fun file => (file.children.map Construct.place,
      (file.items.flatMap Item.children).map Construct.place)) =
      some ([⟨0, 5⟩, ⟨6, 53⟩], [⟨6, 10⟩, ⟨14, 15⟩, ⟨16, 17⟩, ⟨19, 26⟩, ⟨28, 53⟩]) := by
    decide +kernel
  cases hfile : parse source with
  | error diagnostics =>
    rw [hfile] at hspans
    cases hspans
  | ok file =>
    rw [hfile] at hspans
    obtain ⟨houter, hinner⟩ := Prod.mk.inj (Option.some.inj hspans)
    exact ⟨file, rfl, (parse_spans hfile).2.2.1, houter, hinner⟩

end EnsembleCompiler.Target
