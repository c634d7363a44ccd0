import EnsembleCompiler.Target.Place

/-!
# Trees without places

Replacing places by themselves changes nothing, and replacing them twice is replacing them once, so
that a tree without places does not depend on what the places were. In lists of constructs they are
replaced member by member.
-/

namespace EnsembleCompiler.Target

variable {σ τ υ : Type} (f : σ → τ) (g : τ → υ)

theorem Name.map_map (n : Name σ) : (n.map f).map g = n.map (g ∘ f) := rfl

theorem Name.map_id : (Name.map id : Name σ → Name σ) = id := rfl

theorem Attribute.map_id : (Attribute.map id : Attribute σ → Attribute σ) = id := rfl

theorem Attribute.map_map (a : Attribute σ) : (a.map f).map g = a.map (g ∘ f) := rfl

mutual

theorem TypeExpr.map_map (t : TypeExpr σ) : (t.map f).map g = t.map (g ∘ f) := by
  cases t with
  | path p arguments => simp only [TypeExpr.map, TypeExpr.mapAll_mapAll arguments]
  | ref isMutable target => simp only [TypeExpr.map, TypeExpr.map_map target]
  | slice element => simp only [TypeExpr.map, TypeExpr.map_map element]
  | array element length =>
    simp only [TypeExpr.map, TypeExpr.map_map element, Expr.map_map length]
  | tuple elements => simp only [TypeExpr.map, TypeExpr.mapAll_mapAll elements]
  | inferred => rfl

theorem TypeExpr.mapAll_mapAll (ts : List (TypeExpr σ)) :
    TypeExpr.mapAll g (TypeExpr.mapAll f ts) = TypeExpr.mapAll (g ∘ f) ts := by
  cases ts with
  | nil => rfl
  | cons t ts => simp only [TypeExpr.mapAll, TypeExpr.map_map t, TypeExpr.mapAll_mapAll ts]

theorem Ascription.map_map (a : Ascription σ) : (a.map f).map g = a.map (g ∘ f) := by
  cases a with
  | mk place type => simp only [Ascription.map, TypeExpr.map_map type, Function.comp]

theorem Ascription.mapOption_mapOption (a : Option (Ascription σ)) :
    Ascription.mapOption g (Ascription.mapOption f a) = Ascription.mapOption (g ∘ f) a := by
  cases a with
  | none => rfl
  | some a => simp only [Ascription.mapOption, Ascription.map_map a]

theorem Expr.map_map (e : Expr σ) : (e.map f).map g = e.map (g ∘ f) := by
  cases e with
  | literal place value => rfl
  | path place p => rfl
  | unary place op operand => simp only [Expr.map, Expr.map_map operand, Function.comp]
  | binary place op left right =>
    simp only [Expr.map, Expr.map_map left, Expr.map_map right, Function.comp]
  | assign place op target value =>
    simp only [Expr.map, Expr.map_map target, Expr.map_map value, Function.comp]
  | cast place operand type =>
    simp only [Expr.map, Expr.map_map operand, Ascription.map_map type, Function.comp]
  | call place callee arguments =>
    simp only [Expr.map, Expr.map_map callee, Expr.mapAll_mapAll arguments, Function.comp]
  | methodCall place receiver method arguments =>
    simp only [Expr.map, Expr.map_map receiver, Expr.mapAll_mapAll arguments, Name.map_map,
      Function.comp]
  | field place operand name =>
    simp only [Expr.map, Expr.map_map operand, Name.map_map, Function.comp]
  | index place operand i =>
    simp only [Expr.map, Expr.map_map operand, Expr.map_map i, Function.comp]
  | propagate place operand => simp only [Expr.map, Expr.map_map operand, Function.comp]
  | array place elements => simp only [Expr.map, Expr.mapAll_mapAll elements, Function.comp]
  | repeated place value length =>
    simp only [Expr.map, Expr.map_map value, Expr.map_map length, Function.comp]
  | tuple place elements => simp only [Expr.map, Expr.mapAll_mapAll elements, Function.comp]
  | paren place inner => simp only [Expr.map, Expr.map_map inner, Function.comp]
  | block b => simp only [Expr.map, Block.map_map b]
  | cond place condition body otherwise =>
    simp only [Expr.map, Expr.map_map condition, Block.map_map body,
      Expr.mapOption_mapOption otherwise, Function.comp]
  | closure place parameters body =>
    simp only [Expr.map, Expr.map_map body, List.map_map, Function.comp_def, Name.map_map]
  | ret place value => simp only [Expr.map, Expr.mapOption_mapOption value, Function.comp]

theorem Expr.mapAll_mapAll (es : List (Expr σ)) :
    Expr.mapAll g (Expr.mapAll f es) = Expr.mapAll (g ∘ f) es := by
  cases es with
  | nil => rfl
  | cons e es => simp only [Expr.mapAll, Expr.map_map e, Expr.mapAll_mapAll es]

theorem Expr.mapOption_mapOption (e : Option (Expr σ)) :
    Expr.mapOption g (Expr.mapOption f e) = Expr.mapOption (g ∘ f) e := by
  cases e with
  | none => rfl
  | some e => simp only [Expr.mapOption, Expr.map_map e]

theorem Block.map_map (b : Block σ) : (b.map f).map g = b.map (g ∘ f) := by
  cases b with
  | mk place statements tail =>
    simp only [Block.map, Statement.mapAll_mapAll statements, Expr.mapOption_mapOption tail,
      Function.comp]

theorem Statement.map_map (s : Statement σ) : (s.map f).map g = s.map (g ∘ f) := by
  cases s with
  | binding place isMutable name type value =>
    simp only [Statement.map, Ascription.mapOption_mapOption type, Expr.mapOption_mapOption value,
      Name.map_map, Function.comp]
  | expr place e hasSemicolon => simp only [Statement.map, Expr.map_map e, Function.comp]
  | item i => simp only [Statement.map, Item.map_map i]

theorem Statement.mapAll_mapAll (ss : List (Statement σ)) :
    Statement.mapAll g (Statement.mapAll f ss) = Statement.mapAll (g ∘ f) ss := by
  cases ss with
  | nil => rfl
  | cons s ss => simp only [Statement.mapAll, Statement.map_map s, Statement.mapAll_mapAll ss]

theorem Parameter.map_map (p : Parameter σ) : (p.map f).map g = p.map (g ∘ f) := by
  cases p with
  | mk isMutable name type => simp only [Parameter.map, Ascription.map_map type, Name.map_map]

theorem Parameter.mapAll_mapAll (ps : List (Parameter σ)) :
    Parameter.mapAll g (Parameter.mapAll f ps) = Parameter.mapAll (g ∘ f) ps := by
  cases ps with
  | nil => rfl
  | cons p ps => simp only [Parameter.mapAll, Parameter.map_map p, Parameter.mapAll_mapAll ps]

theorem Item.map_map (i : Item σ) : (i.map f).map g = i.map (g ∘ f) := by
  cases i with
  | module place visibility attributes name items =>
    simp only [Item.map, Item.mapAll_mapAll items, List.map_map, Function.comp_def,
      Attribute.map_map, Name.map_map]
  | moduleFile place visibility attributes name =>
    simp only [Item.map, List.map_map, Function.comp_def, Attribute.map_map, Name.map_map]
  | function place visibility attributes name parameters result body =>
    simp only [Item.map, Parameter.mapAll_mapAll parameters, Block.map_map body,
      Ascription.mapOption_mapOption result, List.map_map, Function.comp_def, Attribute.map_map,
      Name.map_map]
  | const place visibility attributes name type value =>
    simp only [Item.map, Ascription.map_map type, Expr.map_map value, List.map_map,
      Function.comp_def, Attribute.map_map, Name.map_map]
  | use place tree => rfl

theorem Item.mapAll_mapAll (is : List (Item σ)) :
    Item.mapAll g (Item.mapAll f is) = Item.mapAll (g ∘ f) is := by
  cases is with
  | nil => rfl
  | cons i is => simp only [Item.mapAll, Item.map_map i, Item.mapAll_mapAll is]

end

mutual

theorem TypeExpr.map_id (t : TypeExpr σ) : t.map id = t := by
  cases t with
  | path p arguments => simp only [TypeExpr.map, TypeExpr.mapAll_id arguments]
  | ref isMutable target => simp only [TypeExpr.map, TypeExpr.map_id target]
  | slice element => simp only [TypeExpr.map, TypeExpr.map_id element]
  | array element length => simp only [TypeExpr.map, TypeExpr.map_id element, Expr.map_id length]
  | tuple elements => simp only [TypeExpr.map, TypeExpr.mapAll_id elements]
  | inferred => rfl

theorem TypeExpr.mapAll_id (ts : List (TypeExpr σ)) : TypeExpr.mapAll id ts = ts := by
  cases ts with
  | nil => rfl
  | cons t ts => simp only [TypeExpr.mapAll, TypeExpr.map_id t, TypeExpr.mapAll_id ts]

theorem Ascription.map_id (a : Ascription σ) : a.map id = a := by
  cases a with
  | mk place type => simp only [Ascription.map, TypeExpr.map_id type, id_eq]

theorem Ascription.mapOption_id (a : Option (Ascription σ)) : Ascription.mapOption id a = a := by
  cases a with
  | none => rfl
  | some a => simp only [Ascription.mapOption, Ascription.map_id a]

theorem Expr.map_id (e : Expr σ) : e.map id = e := by
  cases e with
  | literal place value => rfl
  | path place p => rfl
  | unary place op operand => simp only [Expr.map, Expr.map_id operand, id_eq]
  | binary place op left right => simp only [Expr.map, Expr.map_id left, Expr.map_id right, id_eq]
  | assign place op target value =>
    simp only [Expr.map, Expr.map_id target, Expr.map_id value, id_eq]
  | cast place operand type => simp only [Expr.map, Expr.map_id operand, Ascription.map_id type, id_eq]
  | call place callee arguments =>
    simp only [Expr.map, Expr.map_id callee, Expr.mapAll_id arguments, id_eq]
  | methodCall place receiver method arguments =>
    simp only [Expr.map, Expr.map_id receiver, Expr.mapAll_id arguments, Name.map, id_eq]
  | field place operand name => simp only [Expr.map, Expr.map_id operand, Name.map, id_eq]
  | index place operand i => simp only [Expr.map, Expr.map_id operand, Expr.map_id i, id_eq]
  | propagate place operand => simp only [Expr.map, Expr.map_id operand, id_eq]
  | array place elements => simp only [Expr.map, Expr.mapAll_id elements, id_eq]
  | repeated place value length =>
    simp only [Expr.map, Expr.map_id value, Expr.map_id length, id_eq]
  | tuple place elements => simp only [Expr.map, Expr.mapAll_id elements, id_eq]
  | paren place inner => simp only [Expr.map, Expr.map_id inner, id_eq]
  | block b => simp only [Expr.map, Block.map_id b]
  | cond place condition body otherwise =>
    simp only [Expr.map, Expr.map_id condition, Block.map_id body, Expr.mapOption_id otherwise, id_eq]
  | closure place parameters body =>
    simp only [Expr.map, Expr.map_id body, Name.map_id, List.map_id, id_eq]
  | ret place value => simp only [Expr.map, Expr.mapOption_id value, id_eq]

theorem Expr.mapAll_id (es : List (Expr σ)) : Expr.mapAll id es = es := by
  cases es with
  | nil => rfl
  | cons e es => simp only [Expr.mapAll, Expr.map_id e, Expr.mapAll_id es]

theorem Expr.mapOption_id (e : Option (Expr σ)) : Expr.mapOption id e = e := by
  cases e with
  | none => rfl
  | some e => simp only [Expr.mapOption, Expr.map_id e]

theorem Block.map_id (b : Block σ) : b.map id = b := by
  cases b with
  | mk place statements tail =>
    simp only [Block.map, Statement.mapAll_id statements, Expr.mapOption_id tail, id_eq]

theorem Statement.map_id (s : Statement σ) : s.map id = s := by
  cases s with
  | binding place isMutable name type value =>
    simp only [Statement.map, Ascription.mapOption_id type, Expr.mapOption_id value, Name.map, id_eq]
  | expr place e hasSemicolon => simp only [Statement.map, Expr.map_id e, id_eq]
  | item i => simp only [Statement.map, Item.map_id i]

theorem Statement.mapAll_id (ss : List (Statement σ)) : Statement.mapAll id ss = ss := by
  cases ss with
  | nil => rfl
  | cons s ss => simp only [Statement.mapAll, Statement.map_id s, Statement.mapAll_id ss]

theorem Parameter.map_id (p : Parameter σ) : p.map id = p := by
  cases p with
  | mk isMutable name type => simp only [Parameter.map, Ascription.map_id type, Name.map, id_eq]

theorem Parameter.mapAll_id (ps : List (Parameter σ)) : Parameter.mapAll id ps = ps := by
  cases ps with
  | nil => rfl
  | cons p ps => simp only [Parameter.mapAll, Parameter.map_id p, Parameter.mapAll_id ps]

theorem Item.map_id (i : Item σ) : i.map id = i := by
  cases i with
  | module place visibility attributes name items =>
    simp only [Item.map, Item.mapAll_id items, Attribute.map_id, List.map_id, Name.map, id_eq]
  | moduleFile place visibility attributes name =>
    simp only [Item.map, Attribute.map_id, List.map_id, Name.map, id_eq]
  | function place visibility attributes name parameters result body =>
    simp only [Item.map, Parameter.mapAll_id parameters, Block.map_id body,
      Ascription.mapOption_id result, Attribute.map_id, List.map_id, Name.map, id_eq]
  | const place visibility attributes name type value =>
    simp only [Item.map, Ascription.map_id type, Expr.map_id value, Attribute.map_id, List.map_id,
      Name.map, id_eq]
  | use place tree => rfl

theorem Item.mapAll_id (is : List (Item σ)) : Item.mapAll id is = is := by
  cases is with
  | nil => rfl
  | cons i is => simp only [Item.mapAll, Item.map_id i, Item.mapAll_id is]

end

theorem File.map_id (file : File σ) : file.map id = file := by
  simp only [File.map, Item.mapAll_id, Attribute.map_id, List.map_id]

theorem File.map_map (file : File σ) : (file.map f).map g = file.map (g ∘ f) := by
  simp only [File.map, Item.mapAll_mapAll, List.map_map, Function.comp_def, Attribute.map_map]

/-- An expression without its places. -/
def Expr.erase (e : Expr σ) : Expr Unit := e.map fun _ => ()

/-! ### Members and places -/

theorem TypeExpr.mapAll_eq (ts : List (TypeExpr σ)) :
    TypeExpr.mapAll f ts = ts.map (TypeExpr.map f) := by
  induction ts with
  | nil => rfl
  | cons t ts ih => simp [TypeExpr.mapAll, ih]

theorem Expr.mapAll_eq (es : List (Expr σ)) : Expr.mapAll f es = es.map (Expr.map f) := by
  induction es with
  | nil => rfl
  | cons e es ih => simp [Expr.mapAll, ih]

theorem Statement.mapAll_eq (ss : List (Statement σ)) :
    Statement.mapAll f ss = ss.map (Statement.map f) := by
  induction ss with
  | nil => rfl
  | cons s ss ih => simp [Statement.mapAll, ih]

theorem Parameter.mapAll_eq (ps : List (Parameter σ)) :
    Parameter.mapAll f ps = ps.map (Parameter.map f) := by
  induction ps with
  | nil => rfl
  | cons p ps ih => simp [Parameter.mapAll, ih]

theorem Item.mapAll_eq (is : List (Item σ)) : Item.mapAll f is = is.map (Item.map f) := by
  induction is with
  | nil => rfl
  | cons i is ih => simp [Item.mapAll, ih]

theorem Ascription.mapOption_eq (t : Option (Ascription σ)) :
    Ascription.mapOption f t = t.map (Ascription.map f) := by
  cases t <;> simp [Ascription.mapOption]

theorem Expr.mapOption_eq (e : Option (Expr σ)) : Expr.mapOption f e = e.map (Expr.map f) := by
  cases e <;> simp [Expr.mapOption]

@[simp] theorem Ascription.place_map (t : Ascription σ) : (t.map f).place = f t.place := by
  cases t
  simp [Ascription.map, Ascription.place]

@[simp] theorem Block.place_map (b : Block σ) : (b.map f).place = f b.place := by
  cases b
  simp [Block.map, Block.place]

@[simp] theorem Expr.place_map (e : Expr σ) : (e.map f).place = f e.place := by
  cases e with
  | block b => simp [Expr.map, Expr.place, Block.place_map]
  | _ => simp [Expr.map, Expr.place]

@[simp] theorem Expr.isBlockLike_map (e : Expr σ) : (e.map f).isBlockLike = e.isBlockLike := by
  cases e <;> simp [Expr.map, Expr.isBlockLike]

end EnsembleCompiler.Target
