import EnsembleCompiler.CommandLine.ValuePattern
import EnsembleCompiler.Journal
import EnsembleCompiler.Text.Blank

/-!
# Log filters

A filter is a list of directives, each a level, a target, or a target with a level. A directive
may also name a field that an event has to carry, or a span. Of the directives that match an
event, the most specific one decides whether it is shown.

Filters are written and matched as the package `tracing-subscriber` documents it for its filter of
environment variables, in version 0.3.
-/

namespace EnsembleCompiler.CommandLine

/-- What is asked of a field: that it is there, and perhaps which value it has. -/
structure FieldDemand where
  name : String
  value : Option String
  deriving DecidableEq, Repr

/-- Shows events up to a level, and none at all without one. -/
structure Directive where
  /-- How the targets of the events begin; the empty text is that of all. -/
  target : String
  /-- The name of the spans that the events are in. -/
  span : Option String
  field : Option FieldDemand
  level : Option Level
  deriving DecidableEq, Repr

/-! ### Reading -/

/-- The level that a number from 0 to 5 stands for, which may begin with zeros. -/
def levelOfDigits? (digits : List Char) : Option (Option Level) :=
  match digits.dropWhile (· = '0') with
  | [] => if digits.isEmpty then none else some none
  | ['1'] => some (some .error)
  | ['2'] => some (some .warn)
  | ['3'] => some (some .info)
  | ['4'] => some (some .debug)
  | ['5'] => some (some .trace)
  | _ => none

/-- The level that a word stands for, in capitals or not. -/
def levelOfWord? (word : List Char) : Option (Option Level) :=
  match String.ofList (word.map Char.toLower) with
  | "off" => some none
  | "error" => some (some .error)
  | "warn" => some (some .warn)
  | "info" => some (some .info)
  | "debug" => some (some .debug)
  | "trace" => some (some .trace)
  | _ => none

/-- The level that a text stands for. A number may have a plus sign. -/
def levelOfText? : List Char → Option (Option Level)
  | '+' :: digits => levelOfDigits? digits
  | cs => (levelOfDigits? cs).or (levelOfWord? cs)

/-- Reads what is asked of a field. A second equals sign ends the value. -/
def FieldDemand.ofChars? (cs : List Char) : Option FieldDemand :=
  let name := String.ofList (cs.takeWhile (· ≠ '='))
  match cs, cs.dropWhile (· ≠ '=') with
  | [], _ => none
  | _, [] => some ⟨name, none⟩
  | _, _ :: rest =>
    let value := rest.takeWhile (· ≠ '=')
    if isValueForm value then some ⟨name, some (String.ofList value)⟩ else none

/-- The characters of a text that begin at bytes from `start` up to `stop`. -/
def between (start stop : Nat) : List Char → List Char
  | [] => []
  | c :: rest =>
    if stop = 0 then []
    else if start = 0 then c :: between 0 (stop - c.utf8Size) rest
    else between (start - c.utf8Size) (stop - c.utf8Size) rest

/-- Goes on to a mark: its offset, and the text from there. -/
def seek (isMark : Char → Bool) (offset : Nat) (cs : List Char) : Nat × List Char :=
  (offset + byteLength (cs.takeWhile (!isMark ·)), cs.dropWhile (!isMark ·))

/-- Whether a directive can begin with this character. -/
def startsDirective (c : Char) : Bool :=
  Text.isAlphanumeric c || c = '-' || c = ':' || c = '_'

namespace Directive

/-- Reads the level that stands in a part of a filter from an offset on. Nothing shows all. -/
def levelFrom? (part : List Char) (offset : Nat) : Option (Option Level) :=
  match between offset (byteLength part) part with
  | [] => some (some .trace)
  | cs => levelOfText? cs

/-- Reads the level after a closing bracket, which an equals sign announces. -/
def levelAfter? (part : List Char) (offset : Nat) : List Char → Option (Option Level)
  | [] => some (some .trace)
  | '=' :: _ => levelFrom? part (offset + 1)
  | _ => none

/-- Reads the span and the field in brackets, and the level after them. -/
def ofBracket? (part : List Char) (target : String) (start : Nat) (cs : List Char) :
    Option Directive := do
  let (stop, rest) := seek (fun c => c = ']' || c = '{') start cs
  let span := String.ofList (between start stop part)
  match rest with
  | ']' :: rest => return ⟨target, some span, none, ← levelAfter? part (stop + 1) rest⟩
  | '{' :: rest =>
    let (fieldStop, rest) := seek (· = '}') (stop + 1) rest
    match rest with
    | '}' :: ']' :: rest =>
      let field ← FieldDemand.ofChars? (between (stop + 1) fieldStop part)
      let level ← levelAfter? part (fieldStop + 2) rest
      return ⟨target, if span = "" then none else some span, some field, level⟩
    | _ => none
  | _ => none

/-- Reads a part of a filter. Blanks around it are passed over in the search for marks, but
belong to the text: names and levels are what stands in the part at the offsets that the marks
have without the blanks. -/
def ofPart? (part : List Char) : Option Directive :=
  match Text.trim part with
  | [] => none
  | '[' :: rest => ofBracket? part "" 1 rest
  | c :: rest =>
    if !startsDirective c then none
    else
      let (stop, rest) := seek (fun c => c = '=' || c = '[') 0 (c :: rest)
      let target := String.ofList (between 0 stop part)
      match rest with
      | [] =>
        match levelOfText? part with
        | some level => some ⟨"", none, none, level⟩
        | none => some ⟨String.ofList part, none, none, some .trace⟩
      | '[' :: rest => ofBracket? part target (stop + 1) rest
      | _ :: _ => (levelFrom? part (stop + 1)).map (⟨target, none, none, ·⟩)

end Directive

/-- The parts of a text between commas, without the empty ones. -/
def splitCommas (current : List Char) : List Char → List (List Char)
  | [] => if current.isEmpty then [] else [current.reverse]
  | ',' :: rest =>
    if current.isEmpty then splitCommas [] rest else current.reverse :: splitCommas [] rest
  | c :: rest => splitCommas (c :: current) rest

/-- Reads a filter, all of whose parts have to make sense. An empty one shows errors. -/
def filterOfText? (text : String) : Option (List Directive) :=
  match (splitCommas [] text.toList).mapM Directive.ofPart? with
  | some [] => some [⟨"", none, none, some .error⟩]
  | result => result

/-! ### Showing -/

namespace Directive

/-- Whether a directive is about an event. No event is in a span, and none is shown for the sake
of a value. -/
def isAbout (d : Directive) (event : Event) : Bool :=
  d.span.isNone && d.target.toList.isPrefixOf event.target.toList
    && d.field.all fun field => field.value.isNone && event.carries field.name

/-- Whether a directive is more specific than another one about the same event: it has the longer
target, or else a field, or else the greater name of a field. -/
def isAbove (d e : Directive) : Bool :=
  e.target.length < d.target.length || e.target.length = d.target.length &&
    match d.field, e.field with
    | some f, some g => g.name < f.name
    | some _, none => true
    | none, _ => false

end Directive

/-- The directive that decides about an event: a most specific one of those that are about it, and
of equal ones the last. -/
def deciding? (filter : List Directive) (event : Event) : Option Directive :=
  (filter.filter (·.isAbout event)).foldl (fun best d =>
    if best.any (·.isAbove d) then best else some d) none

/-- Whether a filter shows an event. -/
def shows (filter : List Directive) (event : Event) : Bool :=
  match (deciding? filter event).bind (·.level) with
  | some level => event.level.rank ≤ level.rank
  | none => false

/-- The filter of a run: the one that is set, unless it cannot be read, or the default one. -/
def filterOf (setting : Option String) (isVerbose : Bool) : List Directive :=
  match setting.bind filterOfText? with
  | some filter => filter
  | none =>
    let usual : Directive := ⟨"", none, none, some .info⟩
    if isVerbose then [⟨"boostc", none, none, some .debug⟩, usual] else [usual]

end EnsembleCompiler.CommandLine
