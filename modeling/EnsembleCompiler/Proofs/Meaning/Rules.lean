import EnsembleCompiler.Proofs.Meaning.Evaluation
import Mathlib.Tactic.ByContra

/-!
# Rules of evaluation

`Settles f a`: with enough fuel, and with any more, `f` has the result `a`. Each construct has a
rule, so that an expression settles as soon as its parts do.
-/

namespace EnsembleCompiler.Target

variable {α β : Type}

/-- With enough fuel the result is `a`, however much more there is. -/
def Settles (f : Nat → Option α) (a : α) : Prop := ∃ bound, ∀ fuel, bound ≤ fuel → f fuel = some a

theorem settles_of_eq {f : Nat → Option α} {a : α} (h : ∀ fuel, f fuel = some a) : Settles f a :=
  ⟨0, fun fuel _ => h fuel⟩

theorem Settles.bind {f : Nat → Option α} {g : Nat → α → Option β} {a : α} {b : β}
    (hf : Settles f a) (hg : Settles (fun fuel => g fuel a) b) :
    Settles (fun fuel => (f fuel).bind (g fuel)) b := by
  obtain ⟨m, hm⟩ := hf
  obtain ⟨n, hn⟩ := hg
  refine ⟨max m n, fun fuel hfuel => ?_⟩
  show (f fuel).bind (g fuel) = some b
  rw [hm fuel (by omega), Option.bind_some]
  exact hn fuel (by omega)

theorem Settles.map {f : Nat → Option α} {a : α} (g : α → β) (hf : Settles f a) :
    Settles (fun fuel => (f fuel).map g) (g a) := by
  obtain ⟨m, hm⟩ := hf
  refine ⟨m, fun fuel hfuel => ?_⟩
  show (f fuel).map g = some (g a)
  rw [hm fuel hfuel, Option.map_some]

/-- There is one result at most. -/
theorem Settles.unique {f : Nat → Option α} {a b : α} (ha : Settles f a) (hb : Settles f b) :
    a = b := by
  obtain ⟨m, hm⟩ := ha
  obtain ⟨n, hn⟩ := hb
  have h := hm (max m n) (by omega)
  rw [hn (max m n) (by omega)] at h
  exact (Option.some.inj h).symm

variable {items : List (Item Unit)} {scope after : Scope} {e : Expr Unit} {v w : Value}

/-- The expression `e` has the value `v`, and leaves the scope `after`. -/
abbrev Evaluates (items : List (Item Unit)) (scope : Scope) (e : Expr Unit) (v : Value)
    (after : Scope) : Prop :=
  Settles (fun fuel => evaluate items fuel scope e) (v, after)

abbrev EvaluateAll (items : List (Item Unit)) (scope : Scope) (es : List (Expr Unit))
    (vs : List Value) (after : Scope) : Prop :=
  Settles (fun fuel => Evaluation.all (evaluate items fuel) scope es) (vs, after)

abbrev BlockEvaluates (items : List (Item Unit)) (scope : Scope) (b : Block Unit) (v : Value)
    (after : Scope) : Prop :=
  Settles (fun fuel => Evaluation.block (evaluate items fuel) scope b) (v, after)

abbrev StatementsLead (items : List (Item Unit)) (scope : Scope) (ss : List (Statement Unit))
    (after : Scope) : Prop :=
  Settles (fun fuel => Evaluation.statements (evaluate items fuel) scope ss) after

/-- An expression takes one unit of fuel. -/
theorem evaluates_of_step
    (h : Settles (fun fuel => Evaluation.step items (evaluate items fuel) scope e) (v, after)) :
    Evaluates items scope e v after := by
  obtain ⟨bound, hbound⟩ := h
  refine ⟨bound + 1, fun fuel hfuel => ?_⟩
  obtain ⟨less, rfl⟩ : ∃ less, fuel = less + 1 := ⟨fuel - 1, by omega⟩
  exact hbound less (by omega)

/-! ### Literals and names -/

theorem evaluates_literal {l : Literal} (h : l.value? = some v) :
    Evaluates items scope (.literal () l) v scope :=
  evaluates_of_step (settles_of_eq fun _ => by simp [Evaluation.step, h])

theorem evaluates_path {p : Path}
    (h : Settles (fun fuel => Evaluation.path items (evaluate items fuel) scope p) v) :
    Evaluates items scope (.path () p) v scope :=
  evaluates_of_step (h.map fun v => (v, scope))

theorem evaluates_variable {name : String} (h : scope.lookup name = some v) :
    Evaluates items scope (.path () [name]) v scope :=
  evaluates_path (settles_of_eq fun _ => by simp [Evaluation.path, h])

theorem evaluates_function {name : String} {place : Unit} {visibility : Visibility}
    {attributes : List (Attribute Unit)} {n : Name Unit} {parameters : List (Parameter Unit)}
    {result : Option (Ascription Unit)} {body : Block Unit} (hscope : scope.lookup name = none)
    (hitem : onlyItem? Item.valueName? items name =
      some (.function place visibility attributes n parameters result body)) :
    Evaluates items scope (.path () [name]) (.function name) scope :=
  evaluates_path (settles_of_eq fun _ => by simp [Evaluation.path, hscope, hitem])

theorem evaluates_constant {name : String} {place : Unit} {visibility : Visibility}
    {attributes : List (Attribute Unit)} {n : Name Unit} {type : Ascription Unit}
    (hscope : scope.lookup name = none)
    (hitem : onlyItem? Item.valueName? items name =
      some (.const place visibility attributes n type e))
    (h : Evaluates items [] e v after) : Evaluates items scope (.path () [name]) v scope := by
  refine evaluates_path ?_
  simp only [Evaluation.path, hscope, hitem]
  exact h.map Prod.fst

theorem evaluates_floatConstant {type name : String} (h : floatConstant? type name = some v) :
    Evaluates items scope (.path () [type, name]) v scope :=
  evaluates_path (settles_of_eq fun _ => by simp [Evaluation.path, h])

/-! ### Operators -/

theorem Evaluates.unary {op : UnaryOp} (h : Evaluates items scope e v after)
    (hop : unary? op v = some w) : Evaluates items scope (.unary () op e) w after :=
  evaluates_of_step (h.bind (settles_of_eq fun _ => by simp [hop]))

theorem Evaluates.binary {op : BinaryOp} {l r : Expr Unit} {vl vr : Value} {middle : Scope}
    (hl : Evaluates items scope l vl middle) (hr : Evaluates items middle r vr after)
    (hop : binary? op vl vr = some v) : Evaluates items scope (.binary () op l r) v after :=
  evaluates_of_step (hl.bind (hr.bind (settles_of_eq fun _ => by simp [hop])))

theorem Evaluates.index {i : Expr Unit} {vi : Value} {middle : Scope}
    (he : Evaluates items scope e w middle) (hi : Evaluates items middle i vi after)
    (h : element? w vi = some v) : Evaluates items scope (.index () e i) v after :=
  evaluates_of_step (he.bind (hi.bind (settles_of_eq fun _ => by simp [h])))

/-! ### Lists of expressions -/

theorem evaluateAll_nil : EvaluateAll items scope [] [] scope := settles_of_eq fun _ => rfl

theorem Evaluates.cons {es : List (Expr Unit)} {vs : List Value} {middle : Scope}
    (h : Evaluates items scope e v middle) (hs : EvaluateAll items middle es vs after) :
    EvaluateAll items scope (e :: es) (v :: vs) after :=
  h.bind (hs.map fun r => (v :: r.1, r.2))

theorem EvaluateAll.array {es : List (Expr Unit)} {vs : List Value}
    (h : EvaluateAll items scope es vs after) :
    Evaluates items scope (.array () es) (.array vs) after :=
  evaluates_of_step (h.map fun (r : List Value × Scope) => (Value.array r.1, r.2))

theorem Evaluates.repeated {length : Expr Unit} {n : UInt64} {middle : Scope}
    (h : Evaluates items scope e v middle) (hlength : Evaluates items middle length (.index n) after) :
    Evaluates items scope (.repeated () e length) (.array (List.replicate n.toNat v)) after :=
  evaluates_of_step (h.bind (hlength.bind (settles_of_eq fun _ => rfl)))

/-! ### Calls -/

theorem Evaluates.call {callee : Expr Unit} {f : Value} {es : List (Expr Unit)} {vs : List Value}
    {middle : Scope} (hcallee : Evaluates items scope callee f middle)
    (hs : EvaluateAll items middle es vs after)
    (h : Settles (fun fuel => Evaluation.apply items (evaluate items fuel) f vs) v) :
    Evaluates items scope (.call () callee es) v after :=
  evaluates_of_step (hcallee.bind (hs.bind (h.bind (settles_of_eq fun _ => rfl))))

theorem Evaluates.method {receiver : Expr Unit} {name : String} {m : Method}
    {es : List (Expr Unit)} {vs : List Value} {middle : Scope}
    (hreceiver : Evaluates items scope receiver w middle)
    (hs : EvaluateAll items middle es vs after) (hm : Method.ofName? name = some m)
    (h : Settles (fun fuel =>
      m.call? (fun f v => Evaluation.apply items (evaluate items fuel) f [v]) w vs) v) :
    Evaluates items scope (.methodCall () receiver ⟨(), name⟩ es) v after := by
  refine evaluates_of_step (hreceiver.bind (hs.bind ?_))
  simp only [hm]
  exact h.bind (settles_of_eq fun _ => rfl)

theorem evaluates_closure {names : List (Name Unit)} :
    Evaluates items scope (.closure () names e) (.closure scope (names.map (·.text)) e) scope :=
  evaluates_of_step (settles_of_eq fun _ => rfl)

/-- A closure of one parameter is applied by evaluating its body. -/
theorem settles_applyClosure {name : String}
    (h : Evaluates items ((name, w) :: scope) e v after) :
    Settles (fun fuel => Evaluation.apply items (evaluate items fuel)
      (.closure scope [name] e) [w]) v := h.map Prod.fst

theorem settles_applyFunction {name : String} {place : Unit} {visibility : Visibility}
    {attributes : List (Attribute Unit)} {n : Name Unit} {parameters : List (Parameter Unit)}
    {result : Option (Ascription Unit)} {body : Block Unit} {vs : List Value}
    (hitem : onlyItem? Item.valueName? items name =
      some (.function place visibility attributes n parameters result body))
    (h : Settles (fun fuel => Evaluation.call (evaluate items fuel) parameters body vs) v) :
    Settles (fun fuel => Evaluation.apply items (evaluate items fuel) (.function name) vs) v := by
  simp only [Evaluation.apply, hitem]
  exact h

/-! ### Blocks -/

theorem statementsLead_nil : StatementsLead items scope [] scope := settles_of_eq fun _ => rfl

theorem Evaluates.bindingThen {name : String} {isMutable : Bool} {middle : Scope}
    {ss : List (Statement Unit)} (h : Evaluates items scope e v middle)
    (hs : StatementsLead items ((name, v) :: middle) ss after) :
    StatementsLead items scope (.binding () isMutable ⟨(), name⟩ none (some e) :: ss) after :=
  Settles.bind (h.map fun (r : Value × Scope) => (name, r.1) :: r.2) hs

theorem Evaluates.statementThen {middle : Scope} {hasSemicolon : Bool} {ss : List (Statement Unit)}
    (h : Evaluates items scope e v middle) (hs : StatementsLead items middle ss after) :
    StatementsLead items scope (.expr () e hasSemicolon :: ss) after :=
  Settles.bind (h.map Prod.snd) hs

theorem StatementsLead.block {ss : List (Statement Unit)} {inner last : Scope}
    (hs : StatementsLead items scope ss inner) (h : Evaluates items inner e v last)
    (hafter : last.drop (last.length - scope.length) = after) :
    BlockEvaluates items scope (.mk () ss (some e)) v after := by
  have htail := h.map fun (r : Value × Scope) => (r.1, r.2.drop (r.2.length - scope.length))
  rw [hafter] at htail
  exact Settles.bind hs htail

/-- A block that is a value and no more. -/
theorem Evaluates.block (h : Evaluates items scope e v scope) :
    BlockEvaluates items scope (.mk () [] (some e)) v scope :=
  statementsLead_nil.block h (by simp)

theorem Evaluates.cond {c : Expr Unit} {b o : Block Unit} {isTrue : Bool} {middle : Scope}
    (hc : Evaluates items scope c (.bool isTrue) middle)
    (h : BlockEvaluates items middle (if isTrue then b else o) v after) :
    Evaluates items scope (.cond () c b (some (.block o))) v after := by
  cases isTrue with
  | true => exact evaluates_of_step (hc.bind h)
  | false =>
    have hblock : Evaluates items middle (.block o) v after := evaluates_of_step h
    exact evaluates_of_step (hc.bind hblock)

/-! ### Assignments -/

theorem Evaluates.assign {op : Option BinaryOp} {target : Expr Unit} {middle : Scope}
    (h : Evaluates items scope e v middle)
    (htarget : Settles (fun fuel => Evaluation.assign (evaluate items fuel) op middle v target)
      after) : Evaluates items scope (.assign () op target e) .unit after :=
  evaluates_of_step (h.bind (htarget.bind (settles_of_eq fun _ => rfl)))

theorem settles_assignName (op : Option BinaryOp) {name : String} {old new : Value}
    (hold : scope.lookup name = some old) (hnew : Evaluation.combine op old v = some new)
    (hassign : Evaluation.assignName name new scope = some after) :
    Settles (fun fuel => Evaluation.assign (evaluate items fuel) op scope v (.path () [name])) after :=
  settles_of_eq (fun _ => by simp [Evaluation.assign, hold, hnew, hassign])

theorem settles_assignElement (op : Option BinaryOp) {name : String} {i : Expr Unit}
    {vi array old new changed : Value} {middle : Scope} (hi : Evaluates items scope i vi middle)
    (harray : middle.lookup name = some array) (hold : element? array vi = some old)
    (hnew : Evaluation.combine op old v = some new)
    (hchanged : setElement? array vi new = some changed)
    (hassign : Evaluation.assignName name changed middle = some after) :
    Settles (fun fuel => Evaluation.assign (evaluate items fuel) op scope v
      (.index () (.path () [name]) i)) after :=
  hi.bind (settles_of_eq fun _ => by simp [harray, hold, hnew, hchanged, hassign])

/-! ### Functions -/

/-- The value of a call is that of the body for the arguments. -/
theorem BlockEvaluates.call {parameters : List (Parameter Unit)} {b : Block Unit}
    {vs : List Value} {names : List String}
    (hnames : parameters.map Evaluation.parameterName = names)
    (hlength : names.length = vs.length)
    (h : BlockEvaluates items (names.zip vs) b v after) :
    Settles (fun fuel => Evaluation.call (evaluate items fuel) parameters b vs) v := by
  have hparameters : parameters.length = vs.length := by
    rw [← hlength, ← hnames, List.length_map]
  simp only [Evaluation.call, hparameters, if_true, hnames]
  exact h.map Prod.fst

/-- The one item with a key, where all keys are different. -/
theorem onlyItem?_of_mem {key : Item Unit → Option String} {name : String} {i : Item Unit}
    (hnodup : (items.map key).Nodup) (hi : i ∈ items) (hkey : key i = some name) :
    onlyItem? key items name = some i := by
  have hfilter : items.filter (fun j => key j = some name) = [i] := by
    induction items with
    | nil => exact absurd hi (by simp)
    | cons j items ih =>
      rw [List.map_cons, List.nodup_cons] at hnodup
      obtain ⟨hnot, hnodup⟩ := hnodup
      by_cases hj : key j = some name
      · have hrest : items.filter (fun j => key j = some name) = [] := by
          refine List.filter_eq_nil_iff.2 fun k hk hname => hnot ?_
          rw [hj, ← of_decide_eq_true hname]
          exact List.mem_map_of_mem hk
        have hij : i = j := by
          by_contra hne
          have htail : i ∈ items := by simpa [hne] using hi
          exact hnot (hj ▸ hkey ▸ List.mem_map_of_mem htail)
        rw [List.filter_cons_of_pos (by simpa using hj), hrest, hij]
      · have hij : i ≠ j := by
          rintro rfl
          exact hj hkey
        rw [List.filter_cons_of_neg (by simpa using hj)]
        exact ih hnodup (by simpa [hij] using hi)
  simp only [onlyItem?, hfilter]

end EnsembleCompiler.Target
