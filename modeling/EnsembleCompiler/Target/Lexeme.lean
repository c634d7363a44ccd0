import EnsembleCompiler.Binary.Basic

/-!
# Lexemes of the target language

The words, symbols and literals that a target text is made of. A word is a keyword, a reserved
word that the accepted subset has no use for, the underscore, or an identifier.
-/

namespace EnsembleCompiler.Target

/-- Words with a meaning in the accepted subset. -/
inductive Keyword where
  | asKw | constKw | crateKw | elseKw | falseKw | fnKw | ifKw | letKw
  | modKw | mutKw | pubKw | returnKw | selfKw | superKw | trueKw | useKw
  deriving DecidableEq, Repr

namespace Keyword

def text : Keyword → String
  | asKw => "as" | constKw => "const" | crateKw => "crate" | elseKw => "else"
  | falseKw => "false" | fnKw => "fn" | ifKw => "if" | letKw => "let"
  | modKw => "mod" | mutKw => "mut" | pubKw => "pub" | returnKw => "return"
  | selfKw => "self" | superKw => "super" | trueKw => "true" | useKw => "use"

def all : List Keyword :=
  [asKw, constKw, crateKw, elseKw, falseKw, fnKw, ifKw, letKw,
    modKw, mutKw, pubKw, returnKw, selfKw, superKw, trueKw, useKw]

end Keyword

/-- Words that can name nothing, although the accepted subset does not use them. -/
def reservedWords : List String :=
  ["abstract", "async", "await", "become", "box", "break", "continue", "do", "dyn", "enum",
    "extern", "final", "for", "impl", "in", "loop", "macro", "match", "move", "override", "priv",
    "ref", "Self", "static", "struct", "trait", "try", "type", "typeof", "unsafe", "unsized",
    "virtual", "where", "while", "yield"]

inductive Symbol where
  | leftParen | rightParen | leftBrace | rightBrace | leftBracket | rightBracket
  | comma | colon | pathSep | semicolon | dot | arrow | fatArrow
  | eq | eqEq | notEq | lt | le | gt | ge
  | plus | minus | star | slash | percent | plusEq | minusEq | starEq | slashEq
  | bang | amp | andAnd | pipe | orOr | hash | question | underscore
  deriving DecidableEq, Repr

namespace Symbol

def text : Symbol → String
  | leftParen => "(" | rightParen => ")" | leftBrace => "\x7b" | rightBrace => "\x7d"
  | leftBracket => "[" | rightBracket => "]"
  | comma => "," | colon => ":" | pathSep => "::" | semicolon => ";" | dot => "."
  | arrow => "->" | fatArrow => "=>"
  | eq => "=" | eqEq => "==" | notEq => "!=" | lt => "<" | le => "<=" | gt => ">" | ge => ">="
  | plus => "+" | minus => "-" | star => "*" | slash => "/" | percent => "%"
  | plusEq => "+=" | minusEq => "-=" | starEq => "*=" | slashEq => "/="
  | bang => "!" | amp => "&" | andAnd => "&&" | pipe => "|" | orOr => "||"
  | hash => "#" | question => "?" | underscore => "_"

end Symbol

/-- A lexeme of a target text. Literals carry their value; a number also carries the type that is
written after its digits. -/
inductive Lexeme where
  | keyword (k : Keyword)
  | reserved (word : String)
  | symbol (s : Symbol)
  | integer (value : Nat) (suffix : Option String)
  | float (value : Binary64) (suffix : Option String)
  | str (text : String)
  | ident (name : String)
  deriving DecidableEq

namespace Lexeme

/-- The lexeme of a word. -/
def ofWord (word : String) : Lexeme :=
  match Keyword.all.find? (·.text = word) with
  | some k => .keyword k
  | none =>
    if word = "_" then .symbol .underscore
    else if word ∈ reservedWords then .reserved word
    else .ident word

/-- What a message calls a lexeme. -/
def description : Lexeme → String
  | .keyword k => "'" ++ k.text ++ "'"
  | .reserved word => "reserved word '" ++ word ++ "'"
  | .symbol s => "'" ++ s.text ++ "'"
  | .integer _ _ => "integer literal"
  | .float _ _ => "float literal"
  | .str _ => "string literal"
  | .ident _ => "identifier"

/-- What a message calls the lexeme that stands somewhere, or the end of the text. -/
def found : Option Lexeme → String
  | some lexeme => lexeme.description
  | none => "end of file"

end Lexeme

/-- Letters of the Latin alphabet and the underscore begin a word. -/
def startsWord (c : Char) : Bool := c.isAlpha || c = '_'

/-- Words go on with letters, digits and underscores. -/
def continuesWord (c : Char) : Bool := c.isAlphanum || c = '_'

/-- Whether a name can stand for itself as an identifier. -/
def isIdentifier (name : String) : Bool :=
  match name.toList with
  | [] => false
  | c :: rest =>
    startsWord c && rest.all continuesWord && Lexeme.ofWord name = .ident name

end EnsembleCompiler.Target
