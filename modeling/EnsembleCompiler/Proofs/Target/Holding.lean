import EnsembleCompiler.Proofs.Target.Parts
import EnsembleCompiler.Target.Place

/-!
# The places of a syntax tree

A file has no places but those of the constructs in it: where two ways to replace places agree on the
constructs that it holds, they give the same file.
-/

namespace EnsembleCompiler.Target

variable {σ τ : Type} {f g : σ → τ} {P : Construct σ → Prop}

/-- Two ways to replace places agree on some constructs, and what is inside one of these is one of
them, too. -/
def Agree (f g : σ → τ) (P : Construct σ → Prop) : Prop :=
  ∀ {x : Construct σ}, P x → f x.place = g x.place ∧ ∀ y ∈ x.children, P y

theorem Agree.expr (hP : Agree f g P) {e : Expr σ} (h : P (.expr e)) :
    f e.place = g e.place ∧ ∀ y ∈ e.children, P y := hP h

theorem Agree.item (hP : Agree f g P) {i : Item σ} (h : P (.item i)) :
    f i.place = g i.place ∧ ∀ y ∈ i.children, P y := hP h

theorem Name.map_congr {n : Name σ} (h : f n.place = g n.place) : n.map f = n.map g := by
  rw [Name.map, Name.map, h]

theorem Name.mapAll_congr (hP : Agree f g P) {names : List (Name σ)} (h : ∀ n ∈ names, P (.name n)) :
    names.map (Name.map f) = names.map (Name.map g) :=
  List.map_congr_left fun n hn => Name.map_congr (hP (h n hn)).1

theorem Attribute.map_congr (hP : Agree f g P) {a : Attribute σ} (h : P (.attr a)) :
    a.map f = a.map g := by
  have hplace : f a.place = g a.place := (hP h).1
  rw [Attribute.map, Attribute.map, hplace]

theorem Attribute.mapAll_congr (hP : Agree f g P) {attributes : List (Attribute σ)}
    (h : ∀ a ∈ attributes, P (.attr a)) :
    attributes.map (Attribute.map f) = attributes.map (Attribute.map g) :=
  List.map_congr_left fun a ha => Attribute.map_congr hP (h a ha)

mutual

theorem TypeExpr.map_congr (hP : Agree f g P) :
    (t : TypeExpr σ) → (∀ e ∈ t.lengths, P (.expr e)) → t.map f = t.map g
  | .path p ts, h => by
    rw [TypeExpr.lengths] at h
    rw [TypeExpr.map, TypeExpr.map, TypeExpr.mapAll_congr hP ts h]
  | .ref isMutable t, h => by
    rw [TypeExpr.lengths] at h
    rw [TypeExpr.map, TypeExpr.map, TypeExpr.map_congr hP t h]
  | .slice t, h => by
    rw [TypeExpr.lengths] at h
    rw [TypeExpr.map, TypeExpr.map, TypeExpr.map_congr hP t h]
  | .array t length, h => by
    rw [TypeExpr.lengths, List.forall_mem_append, List.forall_mem_singleton] at h
    rw [TypeExpr.map, TypeExpr.map, TypeExpr.map_congr hP t h.1, Expr.map_congr hP length h.2]
  | .tuple ts, h => by
    rw [TypeExpr.lengths] at h
    rw [TypeExpr.map, TypeExpr.map, TypeExpr.mapAll_congr hP ts h]
  | .inferred, _ => by rw [TypeExpr.map, TypeExpr.map]

theorem TypeExpr.mapAll_congr (hP : Agree f g P) : (ts : List (TypeExpr σ)) →
    (∀ e ∈ TypeExpr.allLengths ts, P (.expr e)) → TypeExpr.mapAll f ts = TypeExpr.mapAll g ts
  | [], _ => by rw [TypeExpr.mapAll, TypeExpr.mapAll]
  | t :: ts, h => by
    rw [TypeExpr.allLengths, List.forall_mem_append] at h
    rw [TypeExpr.mapAll, TypeExpr.mapAll, TypeExpr.map_congr hP t h.1,
      TypeExpr.mapAll_congr hP ts h.2]

theorem Ascription.map_congr (hP : Agree f g P) :
    (t : Ascription σ) → P (.type t) → t.map f = t.map g
  | .mk place t, h => by
    obtain ⟨hplace, ht⟩ : f place = g place ∧ ∀ e ∈ t.lengths, P (.expr e) := by
      simpa [Construct.place, Ascription.place, Construct.children] using hP h
    rw [Ascription.map, Ascription.map, hplace, TypeExpr.map_congr hP t ht]

theorem Ascription.mapOption_congr (hP : Agree f g P) : (t : Option (Ascription σ)) →
    (∀ u, t = some u → P (.type u)) → Ascription.mapOption f t = Ascription.mapOption g t
  | none, _ => by rw [Ascription.mapOption, Ascription.mapOption]
  | some t, h => by
    rw [Ascription.mapOption, Ascription.mapOption, Ascription.map_congr hP t (h t rfl)]

theorem Expr.map_congr (hP : Agree f g P) : (e : Expr σ) → P (.expr e) → e.map f = e.map g
  | .literal place value, h => by
    have hplace : f place = g place := (hP h).1
    rw [Expr.map, Expr.map, hplace]
  | .path place p, h => by
    have hplace : f place = g place := (hP h).1
    rw [Expr.map, Expr.map, hplace]
  | .unary place op operand, h => by
    obtain ⟨hplace, hoperand⟩ : f place = g place ∧ P (.expr operand) := by
      simpa [Expr.place, Expr.children] using hP.expr h
    rw [Expr.map, Expr.map, hplace, Expr.map_congr hP operand hoperand]
  | .binary place op left right, h => by
    obtain ⟨hplace, hleft, hright⟩ : f place = g place ∧ P (.expr left) ∧ P (.expr right) := by
      simpa [Expr.place, Expr.children] using hP.expr h
    rw [Expr.map, Expr.map, hplace, Expr.map_congr hP left hleft, Expr.map_congr hP right hright]
  | .assign place op target value, h => by
    obtain ⟨hplace, htarget, hvalue⟩ : f place = g place ∧ P (.expr target) ∧ P (.expr value) := by
      simpa [Expr.place, Expr.children] using hP.expr h
    rw [Expr.map, Expr.map, hplace, Expr.map_congr hP target htarget, Expr.map_congr hP value hvalue]
  | .cast place operand type, h => by
    obtain ⟨hplace, hoperand, htype⟩ : f place = g place ∧ P (.expr operand) ∧ P (.type type) := by
      simpa [Expr.place, Expr.children] using hP.expr h
    rw [Expr.map, Expr.map, hplace, Expr.map_congr hP operand hoperand,
      Ascription.map_congr hP type htype]
  | .call place callee arguments, h => by
    obtain ⟨hplace, hcallee, harguments⟩ :
        f place = g place ∧ P (.expr callee) ∧ ∀ e ∈ arguments, P (.expr e) := by
      simpa [Expr.place, Expr.children] using hP.expr h
    rw [Expr.map, Expr.map, hplace, Expr.map_congr hP callee hcallee,
      Expr.mapAll_congr hP arguments harguments]
  | .methodCall place receiver method arguments, h => by
    obtain ⟨hplace, hreceiver, hmethod, harguments⟩ : f place = g place ∧
        P (.expr receiver) ∧ P (.member method) ∧ ∀ e ∈ arguments, P (.expr e) := by
      simpa [Expr.place, Expr.children] using hP.expr h
    rw [Expr.map, Expr.map, hplace, Expr.map_congr hP receiver hreceiver, Name.map_congr (hP hmethod).1,
      Expr.mapAll_congr hP arguments harguments]
  | .field place operand name, h => by
    obtain ⟨hplace, hoperand, hname⟩ : f place = g place ∧ P (.expr operand) ∧ P (.member name) := by
      simpa [Expr.place, Expr.children] using hP.expr h
    rw [Expr.map, Expr.map, hplace, Expr.map_congr hP operand hoperand, Name.map_congr (hP hname).1]
  | .index place operand i, h => by
    obtain ⟨hplace, hoperand, hi⟩ : f place = g place ∧ P (.expr operand) ∧ P (.expr i) := by
      simpa [Expr.place, Expr.children] using hP.expr h
    rw [Expr.map, Expr.map, hplace, Expr.map_congr hP operand hoperand, Expr.map_congr hP i hi]
  | .propagate place operand, h => by
    obtain ⟨hplace, hoperand⟩ : f place = g place ∧ P (.expr operand) := by
      simpa [Expr.place, Expr.children] using hP.expr h
    rw [Expr.map, Expr.map, hplace, Expr.map_congr hP operand hoperand]
  | .array place elements, h => by
    obtain ⟨hplace, helements⟩ : f place = g place ∧ ∀ e ∈ elements, P (.expr e) := by
      simpa [Expr.place, Expr.children] using hP.expr h
    rw [Expr.map, Expr.map, hplace, Expr.mapAll_congr hP elements helements]
  | .repeated place value length, h => by
    obtain ⟨hplace, hvalue, hlength⟩ : f place = g place ∧ P (.expr value) ∧ P (.expr length) := by
      simpa [Expr.place, Expr.children] using hP.expr h
    rw [Expr.map, Expr.map, hplace, Expr.map_congr hP value hvalue, Expr.map_congr hP length hlength]
  | .tuple place elements, h => by
    obtain ⟨hplace, helements⟩ : f place = g place ∧ ∀ e ∈ elements, P (.expr e) := by
      simpa [Expr.place, Expr.children] using hP.expr h
    rw [Expr.map, Expr.map, hplace, Expr.mapAll_congr hP elements helements]
  | .paren place inner, h => by
    obtain ⟨hplace, hinner⟩ : f place = g place ∧ P (.expr inner) := by
      simpa [Expr.place, Expr.children] using hP.expr h
    rw [Expr.map, Expr.map, hplace, Expr.map_congr hP inner hinner]
  | .block b, h => by
    have hb : P (.block b) := (hP h).2 _ (List.mem_singleton_self _)
    rw [Expr.map, Expr.map, Block.map_congr hP b hb]
  | .cond place condition body otherwise, h => by
    obtain ⟨hplace, hcondition, hbody, hotherwise⟩ : f place = g place ∧
        P (.expr condition) ∧ P (.block body) ∧ ∀ e, otherwise = some e → P (.expr e) := by
      simpa [Expr.place, Expr.children] using hP.expr h
    rw [Expr.map, Expr.map, hplace, Expr.map_congr hP condition hcondition,
      Block.map_congr hP body hbody, Expr.mapOption_congr hP otherwise hotherwise]
  | .closure place parameters body, h => by
    obtain ⟨hplace, hin⟩ := hP.expr h
    rw [Expr.children, List.forall_mem_append, List.forall_mem_map, List.forall_mem_singleton] at hin
    rw [Expr.map, Expr.map, show f place = g place from hplace, Name.mapAll_congr hP hin.1,
      Expr.map_congr hP body hin.2]
  | .ret place value, h => by
    obtain ⟨hplace, hvalue⟩ : f place = g place ∧ ∀ e, value = some e → P (.expr e) := by
      simpa [Expr.place, Expr.children] using hP.expr h
    rw [Expr.map, Expr.map, hplace, Expr.mapOption_congr hP value hvalue]

theorem Expr.mapAll_congr (hP : Agree f g P) : (es : List (Expr σ)) →
    (∀ e ∈ es, P (.expr e)) → Expr.mapAll f es = Expr.mapAll g es
  | [], _ => by rw [Expr.mapAll, Expr.mapAll]
  | e :: es, h => by
    rw [List.forall_mem_cons] at h
    rw [Expr.mapAll, Expr.mapAll, Expr.map_congr hP e h.1, Expr.mapAll_congr hP es h.2]

theorem Expr.mapOption_congr (hP : Agree f g P) : (e : Option (Expr σ)) →
    (∀ x, e = some x → P (.expr x)) → Expr.mapOption f e = Expr.mapOption g e
  | none, _ => by rw [Expr.mapOption, Expr.mapOption]
  | some e, h => by rw [Expr.mapOption, Expr.mapOption, Expr.map_congr hP e (h e rfl)]

theorem Block.map_congr (hP : Agree f g P) : (b : Block σ) → P (.block b) → b.map f = b.map g
  | .mk place statements tail, h => by
    obtain ⟨hplace, hin⟩ := hP h
    rw [Construct.children, List.forall_mem_append, List.forall_mem_map, List.forall_mem_map] at hin
    simp only [Option.mem_toList] at hin
    rw [Block.map, Block.map, show f place = g place from hplace,
      Statement.mapAll_congr hP statements hin.1, Expr.mapOption_congr hP tail hin.2]

theorem Statement.map_congr (hP : Agree f g P) :
    (s : Statement σ) → P (.statement s) → s.map f = s.map g
  | .binding place isMutable name type value, h => by
    obtain ⟨hplace, hin⟩ := hP h
    rw [Construct.children, List.forall_mem_cons, List.forall_mem_append, List.forall_mem_map,
      List.forall_mem_map] at hin
    simp only [Option.mem_toList] at hin
    obtain ⟨hname, htype, hvalue⟩ := hin
    rw [Statement.map, Statement.map, show f place = g place from hplace, Name.map_congr (hP hname).1,
      Ascription.mapOption_congr hP type htype, Expr.mapOption_congr hP value hvalue]
  | .expr place e hasSemicolon, h => by
    obtain ⟨hplace, hin⟩ := hP h
    rw [Construct.children, List.forall_mem_singleton] at hin
    rw [Statement.map, Statement.map, show f place = g place from hplace, Expr.map_congr hP e hin]
  | .item i, h => by
    have hi : P (.item i) := (hP h).2 _ (List.mem_singleton_self _)
    rw [Statement.map, Statement.map, Item.map_congr hP i hi]

theorem Statement.mapAll_congr (hP : Agree f g P) : (ss : List (Statement σ)) →
    (∀ s ∈ ss, P (.statement s)) → Statement.mapAll f ss = Statement.mapAll g ss
  | [], _ => by rw [Statement.mapAll, Statement.mapAll]
  | s :: ss, h => by
    rw [List.forall_mem_cons] at h
    rw [Statement.mapAll, Statement.mapAll, Statement.map_congr hP s h.1,
      Statement.mapAll_congr hP ss h.2]

theorem Parameter.map_congr (hP : Agree f g P) :
    (p : Parameter σ) → (∀ y ∈ p.children, P y) → p.map f = p.map g
  | .mk isMutable name type, h => by
    rw [Parameter.children, List.forall_mem_cons, List.forall_mem_singleton] at h
    rw [Parameter.map, Parameter.map, Name.map_congr (hP h.1).1, Ascription.map_congr hP type h.2]

theorem Parameter.mapAll_congr (hP : Agree f g P) : (ps : List (Parameter σ)) →
    (∀ y ∈ ps.flatMap Parameter.children, P y) → Parameter.mapAll f ps = Parameter.mapAll g ps
  | [], _ => by rw [Parameter.mapAll, Parameter.mapAll]
  | p :: ps, h => by
    rw [List.flatMap_cons, List.forall_mem_append] at h
    rw [Parameter.mapAll, Parameter.mapAll, Parameter.map_congr hP p h.1,
      Parameter.mapAll_congr hP ps h.2]

theorem Item.map_congr (hP : Agree f g P) : (i : Item σ) → P (.item i) → i.map f = i.map g
  | .module place visibility attributes name items, h => by
    obtain ⟨hplace, hin⟩ := hP.item h
    rw [Item.children, List.forall_mem_append, List.forall_mem_cons, List.forall_mem_append,
      List.forall_mem_map, List.forall_mem_map, List.forall_mem_map] at hin
    obtain ⟨houter, hname, hinner, hitems⟩ := hin
    -- the attributes stand around the name, those outside before it and those inside behind it
    have hattributes : ∀ a ∈ attributes, P (.attr a) := fun a ha => by
      by_cases hinside : a.isInner
      · exact hinner a (List.mem_filter.2 ⟨ha, hinside⟩)
      · exact houter a (List.mem_filter.2 ⟨ha, by simpa using hinside⟩)
    rw [Item.map, Item.map, show f place = g place from hplace,
      Attribute.mapAll_congr hP hattributes, Name.map_congr (hP hname).1,
      Item.mapAll_congr hP items hitems]
  | .moduleFile place visibility attributes name, h => by
    obtain ⟨hplace, hin⟩ := hP.item h
    rw [Item.children, List.forall_mem_append, List.forall_mem_map, List.forall_mem_singleton] at hin
    rw [Item.map, Item.map, show f place = g place from hplace, Attribute.mapAll_congr hP hin.1,
      Name.map_congr (hP hin.2).1]
  | .function place visibility attributes name parameters result body, h => by
    obtain ⟨hplace, hin⟩ := hP.item h
    rw [Item.children, List.forall_mem_append, List.forall_mem_map, List.forall_mem_cons,
      List.forall_mem_append, List.forall_mem_append, List.forall_mem_map,
      List.forall_mem_singleton] at hin
    simp only [Option.mem_toList] at hin
    obtain ⟨hattributes, hname, hparameters, hresult, hbody⟩ := hin
    rw [Item.map, Item.map, show f place = g place from hplace, Attribute.mapAll_congr hP hattributes,
      Name.map_congr (hP hname).1, Parameter.mapAll_congr hP parameters hparameters,
      Ascription.mapOption_congr hP result hresult, Block.map_congr hP body hbody]
  | .const place visibility attributes name type value, h => by
    obtain ⟨hplace, hin⟩ := hP.item h
    rw [Item.children, List.forall_mem_append, List.forall_mem_map, List.forall_mem_cons,
      List.forall_mem_cons, List.forall_mem_singleton] at hin
    obtain ⟨hattributes, hname, htype, hvalue⟩ := hin
    rw [Item.map, Item.map, show f place = g place from hplace, Attribute.mapAll_congr hP hattributes,
      Name.map_congr (hP hname).1, Ascription.map_congr hP type htype, Expr.map_congr hP value hvalue]
  | .use place tree, h => by
    have hplace : f place = g place := (hP h).1
    rw [Item.map, Item.map, hplace]

theorem Item.mapAll_congr (hP : Agree f g P) : (items : List (Item σ)) →
    (∀ i ∈ items, P (.item i)) → Item.mapAll f items = Item.mapAll g items
  | [], _ => by rw [Item.mapAll, Item.mapAll]
  | i :: items, h => by
    rw [List.forall_mem_cons] at h
    rw [Item.mapAll, Item.mapAll, Item.map_congr hP i h.1, Item.mapAll_congr hP items h.2]

end

/-- A file has no places but those of the constructs that it holds. -/
theorem File.map_congr {file : File σ} (h : ∀ x, file.Holds x → f x.place = g x.place) :
    file.map f = file.map g := by
  have hP : Agree f g file.Holds := fun {x} hx => ⟨h x hx, fun _ hy => .inside hx hy⟩
  have hin : ∀ y ∈ file.children, file.Holds y := fun _ => .outermost
  rw [File.children, List.forall_mem_append, List.forall_mem_map, List.forall_mem_map] at hin
  rw [File.map, File.map, Attribute.mapAll_congr hP hin.1, Item.mapAll_congr hP file.items hin.2]

end EnsembleCompiler.Target
