import EnsembleCompiler.Target.Grammar.Items
import EnsembleCompiler.Target.Nesting

/-!
# Reading a target text

A text is accepted if its characters form lexemes and its lexemes form a syntax tree. Lexical
faults are all reported, and then nothing is parsed; otherwise the first syntax error is.

The parser recurses as deep as brackets nest. A text that nests deeper than the stack at hand has
room for is parsed on a thread with a stack of its own, which the host may fail to start; that is
reported in place of a verdict.
-/

namespace EnsembleCompiler.Target

/-- The offset at which a lexeme begins; past the last one, the end of the text. -/
def startOf (tokens : Array Token) (stop : Nat) (index : Nat) : Nat :=
  match tokens[index]? with
  | some token => token.span.start
  | none => stop

/-- The offset at which a lexeme ends. -/
def stopOf (tokens : Array Token) (stop : Nat) (index : Nat) : Nat :=
  match tokens[index]? with
  | some token => token.span.stop
  | none => stop

/-- The places of the lexemes of a text that ends at `stop`. -/
@[reducible] def spans (tokens : Array Token) (stop : Nat) : Places Span where
  token index := ⟨startOf tokens stop index, stopOf tokens stop index⟩
  merge := Span.merge
  dummy := .dummy

/-- The diagnostic for a syntax error among the tokens of a text that ends at `stop`. -/
def SyntaxError.diagnostic (e : SyntaxError) (tokens : Array Token) (stop : Nat) : Diagnostic :=
  let here := tokens[e.position]?.map (·.lexeme)
  let span := (spans tokens stop).token e.position
  ⟨.error, e.cause.message here, span, e.cause.notes, e.cause.help (startOf tokens stop)⟩

/-- What a text is parsed on. -/
structure Host where
  /-- Why a thread with a stack of so many bytes cannot be started; nothing, if it can. -/
  refusal? : Nat → Option String

/-- A host that starts every thread. -/
def Host.ample : Host := ⟨fun _ => none⟩

/-- The nesting depth that is parsed without a thread of its own. -/
def inlineNesting : Nat := 48

/-- The bytes of stack for the parser of a text of this nesting depth. -/
def parserStack (depth : Nat) : Nat := 1024 * 1024 + depth * (64 * 1024)

/-- The diagnostic for a parser thread that was not started. -/
def threadDiagnostic (depth : Nat) (reason : String) : Diagnostic :=
  { Diagnostic.error
      s!"cannot start a parser thread for nesting depth {Nat.repr depth}: {reason}" .dummy with
    help := some s!"{Nat.repr (parserStack depth)} bytes of stack were requested" }

/-- The diagnostic for a text of this nesting depth that a host cannot parse. -/
def Host.refuses? (host : Host) (depth : Nat) : Option Diagnostic :=
  if depth ≤ inlineNesting then none
  else (host.refusal? (parserStack depth)).map (threadDiagnostic depth)

/-- The syntax tree of a scanned text, on a host. -/
def Scan.treeOn (host : Host) (scan : Scan) : Except (List Diagnostic) (File Span) :=
  if scan.faults.isEmpty then
    let lexemes := scan.tokens.map (·.lexeme)
    match host.refuses? (nestingDepth lexemes) with
    | some diagnostic => .error [diagnostic]
    | none =>
      let tokens := scan.tokens.toArray
      match @File.ofLexemes Span (spans tokens scan.stop) lexemes with
      | .ok file => .ok file
      | .error e => .error [e.diagnostic tokens scan.stop]
  else .error (scan.faults.map (·.diagnostic))

/-- The syntax tree of a text, on a host. -/
def parseOn (host : Host) (source : String) : Except (List Diagnostic) (File Span) :=
  (scan source).treeOn host

/-- The diagnostics of a text on a host; an accepted text has none. -/
def checkOn (host : Host) (source : String) : List Diagnostic :=
  match parseOn host source with
  | .ok _ => []
  | .error diagnostics => diagnostics

/-- The syntax tree of a scanned text. -/
def Scan.tree (scan : Scan) : Except (List Diagnostic) (File Span) := scan.treeOn .ample

/-- The syntax tree of a text. -/
def parse (source : String) : Except (List Diagnostic) (File Span) := parseOn .ample source

/-- The diagnostics of a text; an accepted text has none. -/
def check (source : String) : List Diagnostic := checkOn .ample source

end EnsembleCompiler.Target
