import EnsembleCompiler.Proofs.Meaning.Values

/-!
# Evaluation of target trees

The meaning of expressions, blocks and functions of a module, without places. Evaluation has no
result where a name stands for nothing or for several items, an index is outside or an operation
does not apply, and as long as the fuel does not suffice.
-/

namespace EnsembleCompiler.Target

/-- The name that an item gives to a value. -/
def Item.valueName? : Item Unit → Option String
  | .function _ _ _ name _ _ _ | .const _ _ _ name _ _ => some name.text
  | _ => none

def Item.moduleName? : Item Unit → Option String
  | .module _ _ _ name _ => some name.text
  | _ => none

/-- The one item for which `key` is `name`. -/
def onlyItem? (key : Item Unit → Option String) (items : List (Item Unit)) (name : String) :
    Option (Item Unit) :=
  match items.filter fun i => key i = some name with
  | [i] => some i
  | _ => none

/-- The meaning of expressions: a value, and the scope with what has been assigned. -/
abbrev Meaning := Scope → Expr Unit → Option (Value × Scope)

namespace Evaluation

variable (items : List (Item Unit)) (meaning : Meaning)

def all : Scope → List (Expr Unit) → Option (List Value × Scope)
  | scope, [] => some ([], scope)
  | scope, e :: es =>
    (meaning scope e).bind fun (v, scope) =>
      (all scope es).map fun (vs, scope) => (v :: vs, scope)

/-- The scope after a statement. -/
def statement (scope : Scope) : Statement Unit → Option Scope
  | .binding _ _ name _ (some value) =>
    (meaning scope value).map fun (v, scope) => (name.text, v) :: scope
  | .expr _ e _ => (meaning scope e).map Prod.snd
  | _ => none

def statements (scope : Scope) : List (Statement Unit) → Option Scope
  | [] => some scope
  | s :: ss => (statement meaning scope s).bind fun scope => statements scope ss

/-- The variables of a block are out of scope after it. -/
def block (scope : Scope) : Block Unit → Option (Value × Scope)
  | .mk _ ss tail =>
    (statements meaning scope ss).bind fun inner =>
      match tail with
      | some e => (meaning inner e).map fun (v, inner) =>
          (v, inner.drop (inner.length - scope.length))
      | none => some (.unit, inner.drop (inner.length - scope.length))

def parameterName : Parameter Unit → String
  | .mk _ name _ => name.text

/-- The value of a function for arguments, one for each parameter. -/
def call (parameters : List (Parameter Unit)) (body : Block Unit) (arguments : List Value) :
    Option Value :=
  if parameters.length = arguments.length then
    (block meaning ((parameters.map parameterName).zip arguments) body).map Prod.fst
  else none

/-- The value of a function value for arguments. -/
def apply : Value → List Value → Option Value
  | .function name, arguments =>
    match onlyItem? Item.valueName? items name with
    | some (.function _ _ _ _ parameters _ body) => call meaning parameters body arguments
    | _ => none
  | .closure scope parameters body, arguments =>
    if parameters.length = arguments.length then
      (meaning (parameters.zip arguments ++ scope) body).map Prod.fst
    else none
  | _, _ => none

/-- What a path stands for: a variable, or else an item or a constant of a type. -/
def path (scope : Scope) : Path → Option Value
  | [name] =>
    match scope.lookup name with
    | some v => some v
    | none =>
      match onlyItem? Item.valueName? items name with
      | some (.function _ _ _ _ _ _ _) => some (.function name)
      | some (.const _ _ _ _ _ value) => (meaning [] value).map Prod.fst
      | _ => none
  | [type, name] => floatConstant? type name
  | _ => none

/-- The scope with another value of a variable. -/
def assignName (name : String) (v : Value) : Scope → Option Scope
  | [] => none
  | (other, old) :: scope =>
    if other = name then some ((other, v) :: scope)
    else (assignName name v scope).map fun scope => (other, old) :: scope

/-- What is stored where there was a value before. -/
def combine : Option BinaryOp → Value → Value → Option Value
  | none, _, v => some v
  | some op, old, v => binary? op old v

/-- The scope after an assignment to a variable, or to an element of one. -/
def assign (op : Option BinaryOp) (scope : Scope) (v : Value) : Expr Unit → Option Scope
  | .path _ [name] => do
    let old ← scope.lookup name
    assignName name (← combine op old v) scope
  | .index _ (.path _ [name]) i => do
    let (i, scope) ← meaning scope i
    let array ← scope.lookup name
    let old ← element? array i
    assignName name (← setElement? array i (← combine op old v)) scope
  | _ => none

/-- The meaning of an expression, given that of others. -/
def step : Meaning := fun scope e =>
  match e with
  | .literal _ l => l.value?.map fun v => (v, scope)
  | .path _ p => (path items meaning scope p).map fun v => (v, scope)
  | .unary _ op e => do
    let (v, scope) ← meaning scope e
    return (← unary? op v, scope)
  | .binary _ op l r => do
    let (v, scope) ← meaning scope l
    let (w, scope) ← meaning scope r
    return (← binary? op v w, scope)
  | .assign _ op target value => do
    let (v, scope) ← meaning scope value
    return (.unit, ← assign meaning op scope v target)
  | .call _ callee es => do
    let (f, scope) ← meaning scope callee
    let (vs, scope) ← all meaning scope es
    return (← apply items meaning f vs, scope)
  | .methodCall _ receiver name es => do
    let (v, scope) ← meaning scope receiver
    let (vs, scope) ← all meaning scope es
    let method ← Method.ofName? name.text
    return (← method.call? (fun f v => apply items meaning f [v]) v vs, scope)
  | .index _ e i => do
    let (v, scope) ← meaning scope e
    let (i, scope) ← meaning scope i
    return (← element? v i, scope)
  | .array _ es => (all meaning scope es).map fun (vs, scope) => (.array vs, scope)
  | .repeated _ value length => do
    let (v, scope) ← meaning scope value
    match ← meaning scope length with
    | (.index n, scope) => return (.array (List.replicate n.toNat v), scope)
    | _ => none
  | .paren _ e => meaning scope e
  | .block b => block meaning scope b
  | .cond _ condition body otherwise => do
    match ← meaning scope condition with
    | (.bool true, scope) => block meaning scope body
    | (.bool false, scope) =>
      match otherwise with
      | some e => meaning scope e
      | none => return (.unit, scope)
    | _ => none
  | .closure _ parameters body =>
    some (.closure scope (parameters.map (·.text)) body, scope)
  | _ => none

end Evaluation

/-- The meaning of the expressions of a module, with fuel for so many levels. -/
def evaluate (items : List (Item Unit)) : Nat → Meaning
  | 0 => fun _ _ => none
  | fuel + 1 => Evaluation.step items (evaluate items fuel)

/-- The value of a public function of a public module of a file for arguments. -/
def File.callPublic (file : File Unit) (moduleName functionName : String) (arguments : List Value)
    (fuel : Nat) : Option Value :=
  match onlyItem? Item.moduleName? file.items moduleName with
  | some (.module _ .everywhere _ _ items) =>
    match onlyItem? Item.valueName? items functionName with
    | some (.function _ .everywhere _ _ parameters _ body) =>
      Evaluation.call (evaluate items fuel) parameters body arguments
    | _ => none
  | _ => none

end EnsembleCompiler.Target
