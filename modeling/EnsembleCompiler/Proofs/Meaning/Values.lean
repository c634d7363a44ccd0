import EnsembleCompiler.Binary.Rounding
import EnsembleCompiler.Emission.Options
import EnsembleCompiler.Target.Tree

/-!
# Values of the target language

What the expressions of generated code stand for, and the operations on such values that the
language and its library provide. An operation that does not apply has no result.
-/

namespace EnsembleCompiler

namespace Binary

variable {f : FloatFormat}

/-- A magnitude with its sign, as a multiple of the smallest positive value. -/
def signedUnits (f : FloatFormat) (negative : Bool) (rank : Nat) : Int :=
  place.signed negative (f.units rank)

/-- The sum, rounded once; a sum of zero is negative if both parts are. -/
def add : Binary f → Binary f → Binary f
  | .finite s a, .finite t b =>
    let sum := signedUnits f s a + signedUnits f t b
    if sum = 0 then zero f (s && t) else round f (sum < 0) sum.natAbs f.unit
  | .infinite s, .infinite t => if s = t then .infinite s else .nan
  | .infinite s, .finite _ _ => .infinite s
  | .finite _ _, .infinite t => .infinite t
  | _, _ => .nan

end Binary

namespace Target

/-- A value; a closure keeps the variables around it. Indices are of machine words. -/
inductive Value where
  | unit
  | bool (b : Bool)
  | index (n : UInt64)
  | float (p : Precision) (x : Binary p.format)
  | option (content : Option Value)
  | array (elements : List Value)
  | function (name : String)
  | closure (scope : List (String × Value)) (parameters : List String) (body : Expr Unit)

/-- The variables in scope, the innermost first. -/
abbrev Scope := List (String × Value)

/-! ### Literals and operators -/

def Literal.value? : Literal → Option Value
  | .bool b => some (.bool b)
  | .integer n none => if n < UInt64.size then some (.index (UInt64.ofNat n)) else none
  | .float x (some name) => (Precision.ofName? name).map fun p => .float p (x.convert p.format)
  | _ => none

/-- The constants of the floating-point types. -/
def floatConstant? (type name : String) : Option Value :=
  (Precision.ofName? type).bind fun p =>
    if name = "NAN" then some (.float p .nan)
    else if name = "INFINITY" then some (.float p (.infinite false))
    else if name = "NEG_INFINITY" then some (.float p (.infinite true))
    else none

def unary? : UnaryOp → Value → Option Value
  | .neg, .float p x => some (.float p x.neg)
  | .not, .bool b => some (.bool !b)
  | _, _ => none

/-- Both sides of an operator have the same type. -/
def binary? : BinaryOp → Value → Value → Option Value
  | .add, .float p x, .float q y =>
    if h : q = p then some (.float p (x.add (h ▸ y))) else none
  | .lt, .float p x, .float q y =>
    if h : q = p then some (.bool (x.lt (h ▸ y))) else none
  | _, _, _ => none

theorem binary?_add {p : Precision} (x y : Binary p.format) :
    binary? .add (.float p x) (.float p y) = some (.float p (x.add y)) := by
  simp [binary?]

theorem binary?_lt {p : Precision} (x y : Binary p.format) :
    binary? .lt (.float p x) (.float p y) = some (.bool (x.lt y)) := by
  simp [binary?]

def element? : Value → Value → Option Value
  | .array elements, .index n => elements[n.toNat]?
  | _, _ => none

/-- An array with another element at an index, which has to be inside. -/
def setElement? : Value → Value → Value → Option Value
  | .array elements, .index n, v =>
    if n.toNat < elements.length then some (.array (elements.set n.toNat v)) else none
  | _, _, _ => none

/-! ### Methods -/

/-- The methods of slices, optional values and numbers that generated code calls. -/
inductive Method where
  | get
  | copied
  | flatten
  | filter
  | mapOr
  | isNan
  deriving DecidableEq, Repr

namespace Method

def name : Method → String
  | get => "get"
  | copied => "copied"
  | flatten => "flatten"
  | filter => "filter"
  | mapOr => "map_or"
  | isNan => "is_nan"

def ofName? (name : String) : Option Method :=
  [get, copied, flatten, filter, mapOr, isNan].find? (·.name = name)

/-- An optional value, by the answer of a test. -/
def keptIf (v : Value) : Value → Option Value
  | .bool b => some (.option (if b then some v else none))
  | _ => none

/-- The result of a method, given what a function value returns for an argument. -/
def call? (apply : Value → Value → Option Value) : Method → Value → List Value → Option Value
  | get, .array elements, [.index n] => some (.option elements[n.toNat]?)
  | copied, .option o, [] => some (.option o)
  | flatten, .option none, [] => some (.option none)
  | flatten, .option (some (.option o)), [] => some (.option o)
  | filter, .option none, [_] => some (.option none)
  | filter, .option (some v), [keep] => (apply keep v).bind (keptIf v)
  | mapOr, .option none, [default, _] => some default
  | mapOr, .option (some v), [_, f] => apply f v
  | isNan, .float _ x, [] => some (.bool x.isNaN)
  | _, _, _ => none

end Method

end Target

end EnsembleCompiler
