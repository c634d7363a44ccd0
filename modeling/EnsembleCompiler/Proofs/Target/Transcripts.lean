import EnsembleCompiler.Proofs.Target.ItemParts
import EnsembleCompiler.Proofs.Target.Layout
import EnsembleCompiler.Proofs.Target.Numbers

/-!
# Trees as transcripts of their lexemes

A construct is made of lexemes and of other constructs. Where each of these is written by the lexemes
that it fills (`Writing`), so is the construct itself, in the free manner. By induction on the parts of
a file, its lexemes are a writing of its tree: of what a parser passes over, the tree loses no more
than what the manner lists.
-/

namespace EnsembleCompiler.Target

open Target.Parser Grammar

variable {α σ : Type}

/-! ### Lexemes as the scanner makes them -/

/-- A lexeme as the scanner makes it: an identifier has the name of one. -/
def Lexeme.Genuine : Lexeme → Prop
  | .ident name => isIdentifier name = true
  | _ => True

theorem ofWord_of_isIdentifier {name : String} (h : isIdentifier name = true) :
    Lexeme.ofWord name = .ident name := by
  obtain ⟨_, _, _, _, _, hof⟩ := startsLexeme_ident h
  exact hof

theorem fieldLexeme_repr (n : Nat) : fieldLexeme (Nat.repr n) = .integer n none := by
  have htext : (Nat.repr n).toList = Nat.toDigits 10 n := by simp [Nat.repr_eq_ofList_toDigits]
  obtain ⟨c, tail, hdigits, hc⟩ := (digits_toDigits n).exists_cons
  rw [fieldLexeme, htext, if_pos (by simp [hdigits, hc]), Nat.ofDigitChars_ten_toDigits]

theorem fieldLexeme_of_isIdentifier {name : String} (h : isIdentifier name = true) :
    fieldLexeme name = .ofWord name := by
  obtain ⟨c, word, htext, hc, -, -⟩ := startsLexeme_ident h
  have hdigit : c.isDigit = false := by
    by_contra hdigit
    exact absurd hc (by simp [not_startsWord_of_isDigit (by simpa using hdigit)])
  rw [fieldLexeme, htext, if_neg (by simp [hdigit])]

theorem eq_ofWord_of_segment? {x : Lexeme} {text : String} (hx : x.Genuine)
    (h : segment? (some x) = some text) : x = .ofWord text := by
  unfold segment? at h
  split at h
  · rename_i hident
    cases hident
    cases h
    exact (ofWord_of_isIdentifier hx).symm
  · rename_i hcrate
    cases hcrate
    cases h
    rfl
  · rename_i hself
    cases hself
    cases h
    rfl
  · rename_i hsuper
    cases hsuper
    cases h
    rfl
  · cases h

/-- Only a word is read as an identifier, and it is the name. -/
theorem ofWord_eq_ident {word name : String} (h : Lexeme.ofWord word = .ident name) :
    word = name := by
  unfold Lexeme.ofWord at h
  split at h
  · cases h
  · split at h
    · cases h
    · split at h
      · cases h
      · cases h
        rfl

theorem genuine_scanWord {c : Char} {rest : List Char} (hc : startsWord c = true) :
    (scanWord (c :: rest)).lexeme.Genuine := by
  have hcontinues : continuesWord c = true := continuesWord_of_startsWord hc
  have hword : (c :: rest).takeWhile continuesWord = c :: rest.takeWhile continuesWord := by
    rw [List.takeWhile_cons, if_pos hcontinues]
  rw [scanWord, hword]
  dsimp only
  generalize hlexeme : Lexeme.ofWord (String.ofList (c :: rest.takeWhile continuesWord)) = lexeme
  cases lexeme with
  | ident name =>
    obtain rfl := ofWord_eq_ident hlexeme
    show isIdentifier _ = true
    rw [isIdentifier, String.toList_ofList]
    simp only [hc, hlexeme, decide_true, Bool.and_true, Bool.true_and]
    exact List.all_takeWhile
  | _ => trivial

theorem genuine_of_scanLexeme? {c : Char} {rest : List Char} {s : Scanned}
    (h : scanLexeme? c rest = some s) : s.lexeme.Genuine := by
  unfold scanLexeme? at h
  split at h
  · rename_i hc
    cases h
    exact genuine_scanWord hc
  · split at h
    · cases h
      have hnumber := isNumber_scanNumber (c :: rest)
      cases hlexeme : (scanNumber (c :: rest)).lexeme <;> simp_all [Lexeme.isNumber, Lexeme.Genuine]
    · split at h
      · cases h
        obtain ⟨text, htext⟩ := lexeme_scanString false ⟨1, [], []⟩ rest
        rw [htext]
        trivial
      · obtain ⟨sign, width, behind, -, rfl⟩ := eq_of_scanSymbol? h
        trivial

theorem Tokenizes.genuine {offset : Nat} {cells : List Cell} {tail : List Char}
    {lexemes : List Lexeme} (h : Tokenizes offset cells tail lexemes) :
    ∀ l ∈ lexemes, l.Genuine := by
  induction h with
  | finish => simp
  | token _ hs _ ih => exact List.forall_mem_cons.2 ⟨genuine_of_scanLexeme? hs, ih⟩

/-! ### Writings of parts -/

/-- The lexemes are a writing of the construct, in the free manner. -/
def Construct.Written : Construct σ → List Lexeme → Prop
  | .attr a, ls => Attribute.Written .free a ls
  | .name n, ls => ls = [.ofWord n.text]
  | .member n, ls => ls = [fieldLexeme n.text]
  | .type t, ls => Ascription.Written .free t ls
  | .expr e, ls => Expr.Written .free e ls
  | .block b, ls => Block.Written .free b ls
  | .statement s, ls => Statement.Written .free s ls
  | .item i, ls => Item.Written .free i ls

/-- The lexemes are those among the parts, all of them genuine, and writings of the constructs among
them. -/
inductive Writing : List (Part σ) → List Lexeme → Prop
  | nil : Writing [] []
  | lexeme {l : Lexeme} {parts : List (Part σ)} {ls : List Lexeme} :
      l.Genuine → Writing parts ls → Writing (.lexeme l :: parts) (l :: ls)
  | construct {x : Construct σ} {parts : List (Part σ)} {ms ls : List Lexeme} :
      x.Written ms → Writing parts ls → Writing (.construct x :: parts) (ms ++ ls)

section Writing

variable {l : Lexeme} {x : Construct σ} {parts others : List (Part σ)} {ls : List Lexeme}

@[simp] theorem writing_nil : Writing ([] : List (Part σ)) ls ↔ ls = [] := by
  constructor
  · rintro ⟨⟩
    rfl
  · rintro rfl
    exact .nil

@[simp] theorem writing_lexeme : Writing (Part.lexeme l :: parts) ls ↔
    l.Genuine ∧ ∃ ms, Writing parts ms ∧ ls = l :: ms := by
  constructor
  · rintro (_ | ⟨hl, hparts⟩)
    exact ⟨hl, _, hparts, rfl⟩
  · rintro ⟨hl, ms, hparts, rfl⟩
    exact .lexeme hl hparts

@[simp] theorem writing_construct : Writing (Part.construct x :: parts) ls ↔
    ∃ ms, x.Written ms ∧ ∃ ks, Writing parts ks ∧ ls = ms ++ ks := by
  constructor
  · rintro (_ | _ | ⟨hx, hparts⟩)
    exact ⟨_, hx, _, hparts, rfl⟩
  · rintro ⟨ms, hx, ks, hparts, rfl⟩
    exact .construct hx hparts

@[simp] theorem writing_append : Writing (parts ++ others) ls ↔
    ∃ ms, Writing parts ms ∧ ∃ ks, Writing others ks ∧ ls = ms ++ ks := by
  induction parts generalizing ls with
  | nil => simp
  | cons part parts ih =>
    cases part with
    | lexeme l =>
      simp only [List.cons_append, writing_lexeme, ih]
      constructor
      · rintro ⟨hl, _, ⟨ms, hms, ks, hks, rfl⟩, rfl⟩
        exact ⟨l :: ms, ⟨hl, ms, hms, rfl⟩, ks, hks, rfl⟩
      · rintro ⟨_, ⟨hl, ms, hms, rfl⟩, ks, hks, rfl⟩
        exact ⟨hl, ms ++ ks, ⟨ms, hms, ks, hks, rfl⟩, rfl⟩
    | construct x =>
      simp only [List.cons_append, writing_construct, ih]
      constructor
      · rintro ⟨rs, hx, _, ⟨ms, hms, ks, hks, rfl⟩, rfl⟩
        exact ⟨rs ++ ms, ⟨rs, hx, ms, hms, rfl⟩, ks, hks, (List.append_assoc _ _ _).symm⟩
      · rintro ⟨_, ⟨rs, hx, ms, hms, rfl⟩, ks, hks, rfl⟩
        exact ⟨rs, hx, ms ++ ks, ⟨ms, hms, ks, hks, rfl⟩, List.append_assoc _ _ _⟩

@[simp] theorem writing_words {ks : List Lexeme} :
    Writing (words ks : List (Part σ)) ls ↔ (∀ l ∈ ks, l.Genuine) ∧ ls = ks := by
  induction ks generalizing ls with
  | nil => simp [words]
  | cons k ks ih =>
    rw [words, List.map_cons, writing_lexeme, List.forall_mem_cons]
    constructor
    · rintro ⟨hk, ms, hms, rfl⟩
      obtain ⟨hks, rfl⟩ := ih.1 hms
      exact ⟨⟨hk, hks⟩, rfl⟩
    · rintro ⟨⟨hk, hks⟩, rfl⟩
      exact ⟨hk, ks, ih.2 ⟨hks, rfl⟩, rfl⟩

/-- A part behind its mark, or neither. -/
theorem Writing.optional {P : α → List Lexeme → Prop} {mark : List Lexeme} {part : α → Construct σ}
    {a : Option α} (h : Writing (optionalParts mark (fun a => .construct (part a)) a) ls)
    (hpart : ∀ a ms, (part a).Written ms → P a ms) : Optional P mark a ls := by
  cases a with
  | none =>
    obtain rfl := writing_nil.1 h
    exact .absent
  | some a =>
    simp only [optionalParts, writing_append, writing_words, writing_construct, writing_nil] at h
    obtain ⟨_, ⟨-, rfl⟩, _, ⟨ms, ha, _, rfl, rfl⟩, rfl⟩ := h
    rw [List.append_nil]
    exact .present (hpart a ms ha)

/-- Constructs of one kind, one after the other. -/
theorem Writing.series {P : α → List Lexeme → Prop} {part : α → Construct σ} {as : List α}
    (h : Writing (as.map fun a => .construct (part a)) ls)
    (hpart : ∀ a ms, (part a).Written ms → P a ms) : Series P as ls := by
  induction as generalizing ls with
  | nil =>
    obtain rfl := writing_nil.1 h
    exact .nil
  | cons a as ih =>
    obtain ⟨ms, ha, ks, hks, rfl⟩ := writing_construct.1 h
    exact .cons (hpart a ms ha) (ih hks)

end Writing

/-! ### Lists -/

/-- Items each of which has a comma behind it. -/
def terminated (lss : List (List Lexeme)) : List Lexeme := lss.flatMap (· ++ [Lexeme.symbol .comma])

theorem terminated_eq {lss : List (List Lexeme)} (h : lss ≠ []) :
    terminated lss = commaLexemes lss ++ [Lexeme.symbol .comma] := by
  induction lss with
  | nil => exact absurd rfl h
  | cons first rest ih =>
    cases rest with
    | nil => simp [commaLexemes, terminated]
    | cons second rest =>
      have hrest := ih (by simp)
      simp only [terminated, List.flatMap_cons, commaLexemes] at hrest ⊢
      rw [hrest]
      simp

/-- Lexemes that are separated by commas have commas between them, and maybe one behind the last. -/
theorem Separated.commas {lss : List (List Lexeme)} {ls : List Lexeme}
    (h : Separated (.symbol .comma) lss ls) : Commas .free lss ls := by
  by_cases hne : lss = []
  · subst hne
    obtain rfl := h.eq_nil
    exact .between
  · rcases h with h | h
    · rw [h, ← terminated, terminated_eq hne]
      exact .behind rfl hne
    · rw [← terminated, terminated_eq hne] at h
      obtain rfl := List.append_cancel_right h
      exact .between

/-- Groups of parts that are separated have writings that are separated in the same way. -/
theorem Writing.separated {groups : List (List (Part σ))} {parts : List (Part σ)} {ls : List Lexeme}
    (h : Writing parts ls) (hlisted : Listed groups parts) :
    ∃ lss, List.Forall₂ Writing groups lss ∧ Commas .free lss ls := by
  have hclosed {groups : List (List (Part σ))} {ms : List Lexeme}
      (h : Writing (groups.flatMap (· ++ [Part.symbol .comma])) ms) :
      ∃ lss, List.Forall₂ Writing groups lss ∧ ms = terminated lss := by
    induction groups generalizing ms with
    | nil => exact ⟨[], .nil, writing_nil.1 h⟩
    | cons group groups ih =>
      simp only [List.flatMap_cons, writing_append, writing_lexeme, writing_nil] at h
      obtain ⟨_, ⟨ks, hks, _, ⟨-, _, rfl, rfl⟩, rfl⟩, rs, hrs, rfl⟩ := h
      obtain ⟨lss, hlss, rfl⟩ := ih hrs
      exact ⟨ks :: lss, .cons hks hlss, by simp [terminated]⟩
  rcases hlisted with rfl | hlisted
  · obtain ⟨lss, hlss, rfl⟩ := hclosed h
    exact ⟨lss, hlss, Separated.commas (.inl rfl)⟩
  · have hbehind : Writing (groups.flatMap (· ++ [Part.symbol .comma])) (ls ++ [.symbol .comma]) := by
      rw [← hlisted, writing_append]
      exact ⟨ls, h, _, .lexeme trivial .nil, rfl⟩
    obtain ⟨lss, hlss, hls⟩ := hclosed hbehind
    exact ⟨lss, hlss, Separated.commas (.inr hls)⟩

theorem forall₂_of_writing {R : α → List (Part σ) → Prop} {P : α → List Lexeme → Prop} {as : List α}
    {groups : List (List (Part σ))} {lss : List (List Lexeme)} (h : List.Forall₂ Writing groups lss)
    (has : List.Forall₂ R as groups)
    (hP : ∀ a parts ls, R a parts → Writing parts ls → P a ls) : List.Forall₂ P as lss := by
  induction has generalizing lss with
  | nil =>
    cases h
    exact .nil
  | cons ha _ ih =>
    cases h with
    | cons hfirst hrest => exact .cons (hP _ _ _ ha hfirst) (ih hrest)

/-- Constructs of one kind with commas between them. -/
theorem Writing.listed {P : α → List Lexeme → Prop} {groups : α → List (Part σ)} {as : List α}
    {parts : List (Part σ)} {ls : List Lexeme} (h : Writing parts ls)
    (hlisted : Listed (as.map groups) parts) (hgroup : ∀ a ms, Writing (groups a) ms → P a ms) :
    ∃ lss, List.Forall₂ P as lss ∧ Commas .free lss ls := by
  obtain ⟨lss, hlss, hcommas⟩ := h.separated hlisted
  exact ⟨lss, (List.forall₂_map_left_iff.1 hlss).imp fun a ms => hgroup a ms, hcommas⟩

/-! ### Words -/

theorem pathLexemes_append {p : Path} (hp : p ≠ []) (text : String) :
    pathLexemes (p ++ [text]) = pathLexemes p ++ [Lexeme.symbol .pathSep, .ofWord text] := by
  induction p with
  | nil => exact absurd rfl hp
  | cons first rest ih =>
    cases rest with
    | nil => rfl
    | cons second rest =>
      have hrest := ih (by simp)
      simp only [List.cons_append, pathLexemes] at hrest ⊢
      rw [hrest]

theorem IsPath.eq_pathLexemes {p : Path} {ls : List Lexeme} (h : IsPath p ls)
    (hgenuine : ∀ l ∈ ls, l.Genuine) : p ≠ [] ∧ ls = pathLexemes p := by
  induction h with
  | first hx => exact ⟨by simp, by rw [eq_ofWord_of_segment? (hgenuine _ (by simp)) hx, pathLexemes]⟩
  | further _ hx ih =>
    obtain ⟨hne, hls⟩ := ih fun l hl => hgenuine l (by simp [hl])
    refine ⟨by simp, ?_⟩
    rw [pathLexemes_append hne, ← hls, eq_ofWord_of_segment? (hgenuine _ (by simp)) hx]

theorem Separated.forall_mem {P : α → Prop} {separator : α} {groups : List (List α)}
    {whole : List α} (h : Separated separator groups whole) (hseparator : P separator)
    (hwhole : ∀ a ∈ whole, P a) : ∀ group ∈ groups, ∀ a ∈ group, P a := by
  have hall : ∀ a ∈ groups.flatMap (· ++ [separator]), P a := by
    rcases h with h | h
    · rwa [← h]
    · rw [← h, List.forall_mem_append, List.forall_mem_singleton]
      exact ⟨hwhole, hseparator⟩
  exact fun group hgroup a ha => hall a (List.mem_flatMap.2 ⟨group, hgroup, by simp [ha]⟩)

mutual

theorem IsUseTree.written (tree : UseTree) {ls : List Lexeme} (h : IsUseTree tree ls)
    (hgenuine : ∀ l ∈ ls, l.Genuine) : UseTree.Written .free tree ls := by
  cases h with
  | glob => exact .glob
  | name hx =>
    rw [eq_ofWord_of_segment? (hgenuine _ (by simp)) hx]
    exact .name
  | @segment x text rest ls hx hrest =>
    rw [eq_ofWord_of_segment? (hgenuine _ (by simp)) hx]
    exact .segment (IsUseTree.written rest hrest fun l hl => hgenuine l (by simp [hl]))
  | @group trees lss ls htrees hseparated =>
    have hgroups : ∀ ms ∈ lss, ∀ l ∈ ms, l.Genuine :=
      hseparated.forall_mem trivial fun l hl => hgenuine l (by simp [hl])
    exact .group (IsUseTree.allWritten trees htrees hgroups) hseparated.commas

theorem IsUseTree.allWritten (trees : List UseTree) {lss : List (List Lexeme)}
    (h : List.Forall₂ IsUseTree trees lss) (hgenuine : ∀ ms ∈ lss, ∀ l ∈ ms, l.Genuine) :
    List.Forall₂ (UseTree.Written .free) trees lss := by
  cases h with
  | nil => exact .nil
  | @cons tree ls trees lss htree htrees =>
    rw [List.forall_mem_cons] at hgenuine
    exact .cons (IsUseTree.written tree htree hgenuine.1) (IsUseTree.allWritten trees htrees hgenuine.2)

end

/-! ### Constructs -/

section Constructs

variable {parts : List (Part σ)} {ls : List Lexeme}

theorem Attribute.MadeOf.written {a : Attribute σ} (h : a.MadeOf parts) (hwriting : Writing parts ls) :
    Attribute.Written .free a ls := by
  obtain ⟨hp, hnested⟩ := h
  obtain ⟨hgenuine, rfl⟩ := writing_words.1 hwriting
  rename_i place isInner p ks arguments
  obtain ⟨-, rfl⟩ := hp.eq_pathLexemes fun l hl => hgenuine l (by simp [hl])
  exact .applied rfl hnested

theorem Name.MadeOf.written {n : Name σ} (h : n.MadeOf parts) (hwriting : Writing parts ls) :
    ls = [.ofWord n.text] := by
  cases h with
  | ident =>
    obtain ⟨hname, ms, hms, rfl⟩ := writing_lexeme.1 hwriting
    rw [writing_nil.1 hms, ofWord_of_isIdentifier hname]
  | underscore =>
    obtain ⟨-, ms, hms, rfl⟩ := writing_lexeme.1 hwriting
    rw [writing_nil.1 hms]
    rfl

theorem Name.MemberMadeOf.written {n : Name σ} (h : n.MemberMadeOf parts)
    (hwriting : Writing parts ls) : ls = [fieldLexeme n.text] := by
  cases h with
  | ident =>
    obtain ⟨hname, ms, hms, rfl⟩ := writing_lexeme.1 hwriting
    rw [writing_nil.1 hms, fieldLexeme_of_isIdentifier hname, ofWord_of_isIdentifier hname]
  | number =>
    obtain ⟨-, ms, hms, rfl⟩ := writing_lexeme.1 hwriting
    rw [writing_nil.1 hms, fieldLexeme_repr]

mutual

theorem TypeExpr.MadeOf.written (t : TypeExpr σ) {parts : List (Part σ)} {ls : List Lexeme}
    (h : t.MadeOf parts) (hwriting : Writing parts ls) : TypeExpr.Written .free t ls := by
  cases h with
  | path hp =>
    obtain ⟨hgenuine, rfl⟩ := writing_words.1 hwriting
    obtain ⟨-, rfl⟩ := hp.eq_pathLexemes hgenuine
    exact .path
  | @applied p ts ks groups inner hp hne hts hlisted =>
    simp only [List.append_assoc, List.cons_append, writing_append, writing_words, writing_lexeme,
      writing_nil] at hwriting
    obtain ⟨_, ⟨hgenuine, rfl⟩, _, ⟨-, _, ⟨ms, hms, _, ⟨-, _, rfl, rfl⟩, rfl⟩, rfl⟩, rfl⟩ := hwriting
    obtain ⟨-, rfl⟩ := hp.eq_pathLexemes hgenuine
    obtain ⟨lss, hlss, hcommas⟩ := hms.separated hlisted
    exact rel_of_eq (TypeExpr.Written.applied hne (TypeExpr.allMadeOf_written ts hts hlss) hcommas)
      (by simp)
  | @ref isMutable t inner ht =>
    simp only [List.cons_append, writing_append, writing_words, writing_lexeme] at hwriting
    obtain ⟨-, _, ⟨_, ⟨-, rfl⟩, ms, hms, rfl⟩, rfl⟩ := hwriting
    exact .ref (TypeExpr.MadeOf.written t ht hms)
  | @refRef isMutable t inner ht =>
    simp only [List.cons_append, writing_append, writing_words, writing_lexeme] at hwriting
    obtain ⟨-, _, ⟨_, ⟨-, rfl⟩, ms, hms, rfl⟩, rfl⟩ := hwriting
    exact .refRef rfl (TypeExpr.MadeOf.written t ht hms)
  | @slice t inner ht =>
    simp only [List.cons_append, writing_append, writing_lexeme, writing_nil] at hwriting
    obtain ⟨-, _, ⟨ms, hms, _, ⟨-, _, rfl, rfl⟩, rfl⟩, rfl⟩ := hwriting
    exact .slice (TypeExpr.MadeOf.written t ht hms)
  | @array t length inner ht =>
    simp only [List.cons_append, writing_append, writing_lexeme, writing_construct, writing_nil] at hwriting
    obtain ⟨-, _, ⟨ms, hms, _, ⟨-, _, ⟨ks, hks, _, ⟨-, _, rfl, rfl⟩, rfl⟩, rfl⟩, rfl⟩, rfl⟩ := hwriting
    exact rel_of_eq (TypeExpr.Written.array (TypeExpr.MadeOf.written t ht hms) hks) (by simp)
  | @tuple ts groups inner hts hlisted =>
    simp only [List.cons_append, writing_append, writing_lexeme, writing_nil] at hwriting
    obtain ⟨-, _, ⟨ms, hms, _, ⟨-, _, rfl, rfl⟩, rfl⟩, rfl⟩ := hwriting
    obtain ⟨lss, hlss, hcommas⟩ := hms.separated hlisted
    exact .tuple (TypeExpr.allMadeOf_written ts hts hlss) hcommas
  | inferred =>
    obtain ⟨-, ms, hms, rfl⟩ := writing_lexeme.1 hwriting
    rw [writing_nil.1 hms]
    exact .inferred

theorem TypeExpr.allMadeOf_written (ts : List (TypeExpr σ)) {groups : List (List (Part σ))}
    {lss : List (List Lexeme)} (h : List.Forall₂ TypeExpr.MadeOf ts groups)
    (hwriting : List.Forall₂ Writing groups lss) : List.Forall₂ (TypeExpr.Written .free) ts lss := by
  cases h with
  | nil =>
    cases hwriting
    exact .nil
  | @cons t _ ts _ ht hts =>
    cases hwriting with
    | cons hfirst hrest =>
      exact .cons (TypeExpr.MadeOf.written t ht hfirst) (TypeExpr.allMadeOf_written ts hts hrest)

end

theorem Enclosed.written {opener closer : Symbol} {es : List (Expr σ)}
    (h : Enclosed opener closer es parts) (hwriting : Writing parts ls) :
    ∃ lss ms, List.Forall₂ (Expr.Written .free) es lss ∧ Commas .free lss ms ∧
      ls = .symbol opener :: ms ++ [Lexeme.symbol closer] := by
  obtain ⟨hlisted⟩ := h
  simp only [List.cons_append, writing_append, writing_lexeme, writing_nil] at hwriting
  obtain ⟨-, _, ⟨ms, hms, _, ⟨-, _, rfl, rfl⟩, rfl⟩, rfl⟩ := hwriting
  obtain ⟨lss, hlss, hcommas⟩ := hms.listed hlisted (P := Expr.Written .free) fun e ks hks => by
    obtain ⟨rs, hrs, _, hnil, rfl⟩ := writing_construct.1 hks
    rw [writing_nil.1 hnil, List.append_nil]
    exact hrs
  exact ⟨lss, ms, hlss, hcommas, rfl⟩

theorem Name.ParameterMadeOf.written {n : Name σ} (h : n.ParameterMadeOf parts)
    (hwriting : Writing parts ls) : Name.ParameterWritten .free n ls := by
  cases h with
  | bare =>
    obtain ⟨ms, rfl, _, hnil, rfl⟩ := writing_construct.1 hwriting
    rw [writing_nil.1 hnil]
    exact .bare
  | @typed t inner ht =>
    simp only [writing_construct, writing_lexeme] at hwriting
    obtain ⟨_, rfl, _, ⟨-, ms, hms, rfl⟩, rfl⟩ := hwriting
    exact .typed rfl (TypeExpr.MadeOf.written t ht hms)

theorem Name.ParametersMadeOf.written {names : List (Name σ)} (h : Name.ParametersMadeOf names parts)
    (hwriting : Writing parts ls) : Name.ParametersWritten .free names ls := by
  cases h with
  | none =>
    obtain ⟨-, _, hnil, rfl⟩ := writing_lexeme.1 hwriting
    rw [writing_nil.1 hnil]
    exact .none
  | @mk _ groups inner hnames hlisted =>
    simp only [List.cons_append, writing_append, writing_lexeme, writing_nil] at hwriting
    obtain ⟨-, _, ⟨ms, hms, _, ⟨-, _, rfl, rfl⟩, rfl⟩, rfl⟩ := hwriting
    cases hnames with
    | nil =>
      -- with nothing between them, the bars could stand together
      obtain rfl := hlisted.eq_nil
      rw [writing_nil.1 hms]
      exact .apart rfl
    | cons hname hnames =>
      obtain ⟨lss, hlss, hcommas⟩ := hms.separated hlisted
      have hwritten := forall₂_of_writing hlss (.cons hname hnames) fun _ _ _ =>
        Name.ParameterMadeOf.written
      exact .some (by simp) hwritten hcommas

theorem Expr.MadeOf.written {e : Expr σ} (h : e.MadeOf parts) (hwriting : Writing parts ls) :
    Expr.Written .free e ls := by
  -- a construct is written by one rule; the words of its parts are what the rule asks for
  cases h with
  | literal =>
    obtain ⟨-, _, hnil, rfl⟩ := writing_lexeme.1 hwriting
    rw [writing_nil.1 hnil]
    exact .literal
  | path hp =>
    obtain ⟨hgenuine, rfl⟩ := writing_words.1 hwriting
    obtain ⟨-, rfl⟩ := hp.eq_pathLexemes hgenuine
    exact .path
  | unary =>
    simp only [writing_append, writing_words, writing_construct, writing_nil] at hwriting
    obtain ⟨_, ⟨-, rfl⟩, _, ⟨ms, he, _, rfl, rfl⟩, rfl⟩ := hwriting
    exact rel_of_eq (Expr.Written.unary he) (by simp)
  | binary =>
    simp only [writing_construct, writing_lexeme, writing_nil] at hwriting
    obtain ⟨ms, hleft, _, ⟨-, _, ⟨ks, hright, _, rfl, rfl⟩, rfl⟩, rfl⟩ := hwriting
    exact rel_of_eq (Expr.Written.binary hleft hright) (by simp)
  | assign =>
    simp only [writing_construct, writing_lexeme, writing_nil] at hwriting
    obtain ⟨ms, htarget, _, ⟨-, _, ⟨ks, hvalue, _, rfl, rfl⟩, rfl⟩, rfl⟩ := hwriting
    exact rel_of_eq (Expr.Written.assign htarget hvalue) (by simp)
  | cast =>
    simp only [writing_construct, writing_lexeme, writing_nil] at hwriting
    obtain ⟨ms, he, _, ⟨-, _, ⟨ks, htype, _, rfl, rfl⟩, rfl⟩, rfl⟩ := hwriting
    exact rel_of_eq (Expr.Written.cast he htype) (by simp)
  | call hes =>
    obtain ⟨ms, he, ks, hks, rfl⟩ := writing_construct.1 hwriting
    obtain ⟨lss, rs, hlss, hcommas, rfl⟩ := hes.written hks
    exact .call he (.mk hlss hcommas)
  | methodCall hes =>
    simp only [writing_construct, writing_lexeme] at hwriting
    obtain ⟨ms, he, _, ⟨-, _, ⟨_, rfl, ks, hks, rfl⟩, rfl⟩, rfl⟩ := hwriting
    obtain ⟨lss, rs, hlss, hcommas, rfl⟩ := hes.written hks
    exact .methodCall he (.mk hlss hcommas)
  | field =>
    simp only [writing_construct, writing_lexeme, writing_nil] at hwriting
    obtain ⟨ms, he, _, ⟨-, _, ⟨_, rfl, _, rfl, rfl⟩, rfl⟩, rfl⟩ := hwriting
    exact .field he
  | index =>
    simp only [writing_construct, writing_lexeme, writing_nil] at hwriting
    obtain ⟨ms, he, _, ⟨-, _, ⟨ks, hindex, _, ⟨-, _, rfl, rfl⟩, rfl⟩, rfl⟩, rfl⟩ := hwriting
    exact rel_of_eq (Expr.Written.index he hindex) (by simp)
  | propagate =>
    simp only [writing_construct, writing_lexeme, writing_nil] at hwriting
    obtain ⟨ms, he, _, ⟨-, _, rfl, rfl⟩, rfl⟩ := hwriting
    exact .propagate he
  | array hes =>
    obtain ⟨lss, rs, hlss, hcommas, rfl⟩ := hes.written hwriting
    exact .array hlss hcommas
  | repeated =>
    simp only [writing_construct, writing_lexeme, writing_nil] at hwriting
    obtain ⟨-, _, ⟨ms, hvalue, _, ⟨-, _, ⟨ks, hlength, _, ⟨-, _, rfl, rfl⟩, rfl⟩, rfl⟩, rfl⟩, rfl⟩ :=
      hwriting
    exact rel_of_eq (Expr.Written.repeated hvalue hlength) (by simp)
  | single =>
    simp only [writing_construct, writing_lexeme, writing_nil] at hwriting
    obtain ⟨-, _, ⟨ms, he, _, ⟨-, _, ⟨-, _, rfl, rfl⟩, rfl⟩, rfl⟩, rfl⟩ := hwriting
    exact .single he
  | tuple hne hes =>
    obtain ⟨lss, rs, hlss, hcommas, rfl⟩ := hes.written hwriting
    exact .tuple hne hlss hcommas
  | paren =>
    simp only [writing_construct, writing_lexeme, writing_nil] at hwriting
    obtain ⟨-, _, ⟨ms, he, _, ⟨-, _, rfl, rfl⟩, rfl⟩, rfl⟩ := hwriting
    exact .paren he
  | block =>
    obtain ⟨ms, hb, _, hnil, rfl⟩ := writing_construct.1 hwriting
    rw [writing_nil.1 hnil, List.append_nil]
    exact .block hb
  | cond =>
    simp only [writing_construct, writing_lexeme] at hwriting
    obtain ⟨-, _, ⟨ms, hcondition, _, ⟨ks, hbody, rs, hrest, rfl⟩, rfl⟩, rfl⟩ := hwriting
    exact rel_of_eq (Expr.Written.cond hcondition hbody (hrest.optional fun _ _ => id)) (by simp)
  | closure hnames =>
    simp only [writing_append, writing_construct, writing_nil] at hwriting
    obtain ⟨ms, hms, _, ⟨ks, hbody, _, rfl, rfl⟩, rfl⟩ := hwriting
    exact rel_of_eq (Expr.Written.closure (hnames.written hms) hbody) (by simp)
  | @typedClosure _ _ t _ _ _ hnames ht =>
    simp only [List.append_assoc, List.cons_append, writing_append, writing_lexeme, writing_construct,
      writing_nil] at hwriting
    obtain ⟨ms, hms, _, ⟨-, _, ⟨ks, hks, _, ⟨rs, hbody, _, rfl, rfl⟩, rfl⟩, rfl⟩, rfl⟩ := hwriting
    cases hbody with
    | block hb =>
      exact rel_of_eq (Expr.Written.typedClosure rfl (hnames.written hms)
        (TypeExpr.MadeOf.written t ht hks) hb) (by simp)
  | ret =>
    obtain ⟨-, ms, hms, rfl⟩ := writing_lexeme.1 hwriting
    exact .ret (hms.optional fun _ _ => id)

theorem Statements.written {mayBeEmpty : Bool} {ss : List (Statement σ)}
    (h : Statements True (Part.symbol .semicolon) (fun s qs => qs = [.statement s]) mayBeEmpty ss
      parts) (hwriting : Writing parts ls) :
    Statements (Manner.free = .free) (.symbol .semicolon) (Statement.Written .free) mayBeEmpty ss
      ls := by
  induction h generalizing ls with
  | nil =>
    obtain rfl := writing_nil.1 hwriting
    exact .nil
  | cons hs _ ih =>
    subst hs
    obtain ⟨ms, hwritten, ks, hks, rfl⟩ := writing_construct.1 hwriting
    exact .cons hwritten (ih hks)
  | empty _ _ ih =>
    obtain ⟨-, ms, hms, rfl⟩ := writing_lexeme.1 hwriting
    exact .empty rfl (ih hms)

theorem Block.MadeOf.written {b : Block σ} (h : b.MadeOf parts) (hwriting : Writing parts ls) :
    Block.Written .free b ls := by
  obtain ⟨hstatements⟩ := h
  simp only [List.append_assoc, List.cons_append, writing_append, writing_lexeme, writing_nil] at hwriting
  obtain ⟨-, _, ⟨ms, hms, _, ⟨ks, hks, _, ⟨-, _, rfl, rfl⟩, rfl⟩, rfl⟩, rfl⟩ := hwriting
  exact rel_of_eq (Block.Written.mk (hstatements.written hms)
    (hks.optional fun _ _ => id)) (by simp)

theorem Statement.MadeOf.written {s : Statement σ} (h : s.MadeOf parts) (hwriting : Writing parts ls) :
    Statement.Written .free s ls := by
  cases h with
  | binding =>
    simp only [List.append_assoc, List.cons_append, writing_append, writing_lexeme, writing_words,
      writing_construct, writing_nil] at hwriting
    obtain ⟨-, _, ⟨_, ⟨-, rfl⟩, _, ⟨_, rfl, _, ⟨ms, hms, _, ⟨ks, hks, _, ⟨-, _, rfl, rfl⟩, rfl⟩, rfl⟩,
      rfl⟩, rfl⟩, rfl⟩ := hwriting
    exact rel_of_eq (Statement.Written.binding (hms.optional fun _ _ => id)
      (hks.optional fun _ _ => id)) (by simp)
  | closed =>
    simp only [writing_construct, writing_lexeme, writing_nil] at hwriting
    obtain ⟨ms, he, _, ⟨-, _, rfl, rfl⟩, rfl⟩ := hwriting
    exact .closed he
  | bare hblock =>
    obtain ⟨ms, he, _, hnil, rfl⟩ := writing_construct.1 hwriting
    rw [writing_nil.1 hnil, List.append_nil]
    exact .bare hblock he
  | item =>
    obtain ⟨ms, hi, _, hnil, rfl⟩ := writing_construct.1 hwriting
    rw [writing_nil.1 hnil, List.append_nil]
    exact .item hi

theorem Parameter.written_of_parts {p : Parameter σ} (hwriting : Writing p.parts ls) :
    Parameter.Written .free p ls := by
  obtain ⟨isMutable, n, t⟩ := p
  simp only [Parameter.parts, writing_append, writing_words, writing_construct, writing_lexeme,
    writing_nil] at hwriting
  obtain ⟨_, ⟨-, rfl⟩, _, ⟨_, rfl, _, ⟨-, _, ⟨ms, ht, _, rfl, rfl⟩, rfl⟩, rfl⟩, rfl⟩ := hwriting
  exact rel_of_eq (Parameter.Written.mk ht) (by simp)

/-- What stands before the keyword of an item. -/
theorem writing_headParts {attributes : List (Attribute σ)} {v : Visibility} :
    Writing (headParts attributes v) ls →
      ∃ os, Attribute.AllWritten .free attributes os ∧ ls = os ++ v.lexemes := by
  intro hwriting
  rw [headParts, writing_append] at hwriting
  obtain ⟨os, hos, _, hv, rfl⟩ := hwriting
  exact ⟨os, hos.series fun _ _ => id, by rw [(writing_words.1 hv).2]⟩

theorem Item.MadeOf.written {i : Item σ} (h : i.MadeOf parts) (hwriting : Writing parts ls) :
    Item.Written .free i ls := by
  cases h with
  | @module place v outer inner n items houter hinner =>
    simp only [List.append_assoc, List.cons_append, writing_append, writing_lexeme, writing_construct,
      writing_nil] at hwriting
    obtain ⟨_, hhead, _, ⟨-, _, ⟨_, rfl, _, ⟨-, _, ⟨ms, hms, _, ⟨ks, hks, _, ⟨-, _, rfl, rfl⟩, rfl⟩,
      rfl⟩, rfl⟩, rfl⟩, rfl⟩, rfl⟩ := hwriting
    obtain ⟨os, hos, rfl⟩ := writing_headParts hhead
    obtain ⟨hfilter, hfilter'⟩ := filter_isInner houter hinner
    rw [← hfilter] at hos
    have hinner : Attribute.AllWritten .free ((outer ++ inner).filter (·.isInner)) ms := by
      rw [hfilter']
      exact hms.series fun _ _ => id
    exact rel_of_eq (Item.Written.module hos hinner (hks.series fun _ _ => id)) (by simp)
  | moduleFile =>
    simp only [writing_append, writing_lexeme, writing_construct, writing_nil] at hwriting
    obtain ⟨_, hhead, _, ⟨-, _, ⟨_, rfl, _, ⟨-, _, rfl, rfl⟩, rfl⟩, rfl⟩, rfl⟩ := hwriting
    obtain ⟨os, hos, rfl⟩ := writing_headParts hhead
    exact rel_of_eq (Item.Written.moduleFile hos) (by simp)
  | @function _ v attributes _ _ _ _ _ _ hks hlisted =>
    simp only [List.append_assoc, List.cons_append, writing_append, writing_lexeme, writing_words,
      writing_construct, writing_nil] at hwriting
    obtain ⟨_, hhead, _, ⟨ks, ⟨-, rfl⟩, _, ⟨-, _, ⟨_, rfl, _, ⟨-, _, ⟨ms, hms, _, ⟨-, _, ⟨rs, hrs, _,
      ⟨bs, hbs, _, rfl, rfl⟩, rfl⟩, rfl⟩, rfl⟩, rfl⟩, rfl⟩, rfl⟩, rfl⟩, rfl⟩ := hwriting
    obtain ⟨os, hos, rfl⟩ := writing_headParts hhead
    obtain ⟨lss, hlss, hcommas⟩ := hms.listed hlisted fun _ _ => Parameter.written_of_parts
    -- the keyword `const` in front of a function is in its parts, but not in the tree
    have hspare : Spare .free (.keyword .constKw) ks := by
      rcases hks with rfl | rfl
      · exact .absent
      · exact .present rfl
    exact rel_of_eq (Item.Written.function hos hspare hlss hcommas (hrs.optional fun _ _ => id) hbs)
      (by simp)
  | const =>
    simp only [writing_append, writing_lexeme, writing_construct, writing_nil] at hwriting
    obtain ⟨_, hhead, _, ⟨-, _, ⟨_, rfl, _, ⟨-, _, ⟨ms, ht, _, ⟨-, _, ⟨ks, hvalue, _, ⟨-, _, rfl, rfl⟩,
      rfl⟩, rfl⟩, rfl⟩, rfl⟩, rfl⟩, rfl⟩, rfl⟩ := hwriting
    obtain ⟨os, hos, rfl⟩ := writing_headParts hhead
    exact rel_of_eq (Item.Written.const hos ht hvalue) (by simp)
  | @use place v attributes tree ks htree =>
    simp only [List.append_assoc, List.cons_append, writing_append, writing_lexeme, writing_words,
      writing_nil] at hwriting
    obtain ⟨_, hhead, _, ⟨-, _, ⟨_, ⟨hgenuine, rfl⟩, _, ⟨-, _, rfl, rfl⟩, rfl⟩, rfl⟩, rfl⟩ := hwriting
    obtain ⟨os, hos, rfl⟩ := writing_headParts hhead
    exact rel_of_eq (Item.Written.markedUse (v := v) rfl hos (IsUseTree.written tree htree hgenuine))
      (by simp)

/-- A writing of its parts is one of the construct. -/
theorem Construct.MadeOf.written {x : Construct σ} (h : x.MadeOf parts) (hwriting : Writing parts ls) :
    x.Written ls := by
  cases x with
  | attr a => exact Attribute.MadeOf.written h hwriting
  | name n => exact Name.MadeOf.written h hwriting
  | member n => exact Name.MemberMadeOf.written h hwriting
  | type t =>
    obtain ⟨place, t⟩ := t
    exact .mk (TypeExpr.MadeOf.written t h hwriting)
  | expr e => exact Expr.MadeOf.written h hwriting
  | block b => exact Block.MadeOf.written h hwriting
  | statement s => exact Statement.MadeOf.written h hwriting
  | item i => exact Item.MadeOf.written h hwriting

/-- Lexemes are a writing of the parts that fill them. -/
theorem Fills.writing {place : Nat → Nat → σ} {start : Nat} (h : Fills place parts start ls)
    (hgenuine : ∀ l ∈ ls, l.Genuine) : Writing parts ls := by
  induction h with
  | nil => exact .nil
  | lexeme _ ih =>
    rw [List.forall_mem_cons] at hgenuine
    exact .lexeme hgenuine.1 (ih hgenuine.2)
  | construct hx _ _ _ hinner ih =>
    rw [List.forall_mem_append] at hgenuine
    exact .construct (hx.written (hinner hgenuine.1)) (ih hgenuine.2)

end Constructs

/-! ### The lexemes of a text -/

/-- The lexemes of a tree are a writing of it. -/
theorem written_of_ofLexemes {ls : List Lexeme} {tree : File Unit}
    (hgenuine : ∀ l ∈ ls, l.Genuine) (h : File.ofLexemes ls = .ok tree) :
    File.Written .free tree ls := by
  have hwriting := (fills_of_ofLexemes h).writing hgenuine
  rw [File.children, List.map_append, List.map_map, List.map_map, writing_append] at hwriting
  obtain ⟨ms, hattributes, ks, hitems, rfl⟩ := hwriting
  exact .mk (hattributes.series fun _ _ => id) (hitems.series fun _ _ => id)

end EnsembleCompiler.Target
