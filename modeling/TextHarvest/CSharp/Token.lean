import TextHarvest.CSharp.Literal

/-! # Tokens of C# source

A token is a piece of source text with its class and the line on which it starts. Blanks, comments and the
directives that only annotate the text are no tokens.

The text of an interpolated string is cut at its holes: an opening token, parts of text, and for every hole the
tokens of the code in it between an opening and a closing token.
-/

namespace TextHarvest.CSharp

/-- The directives that divide the source into alternatives. -/
inductive Conditional
  | openIf
  | elseIf
  | otherwise
  | endIf
deriving DecidableEq, Repr

inductive TokenKind
  /-- An identifier or a keyword. -/
  | word
  | number
  | character
  /-- A string literal in one of its plain forms. -/
  | string (form : Literal.Form)
  /-- An operator or a bracket. -/
  | symbol
  /-- What opens an interpolated string, up to and with its quotes. -/
  | openText
  | textPart
  | closeText
  | openHole
  /-- The colon and the format text at the end of a hole. -/
  | format
  | closeHole
  | directive (conditional : Conditional)
  /-- The end of the line on which a condition stands. -/
  | lineEnd
deriving DecidableEq, Repr

structure Token where
  kind : TokenKind
  text : String
  /-- The line on which the token starts, counted from 1. -/
  line : Nat
  /-- Does the next token follow without a blank or a comment? -/
  joined : Bool := false
deriving DecidableEq, Repr

/-- The words that are never identifiers, also where no keyword could stand, unless an at sign is put before them. -/
def reservedWords : List String :=
  ["abstract", "as", "base", "bool", "break", "byte", "case", "catch", "char", "checked", "class", "const",
   "continue", "decimal", "default", "delegate", "do", "double", "else", "enum", "event", "explicit", "extern",
   "false", "finally", "fixed", "float", "for", "foreach", "goto", "if", "implicit", "in", "int", "interface",
   "internal", "is", "lock", "long", "namespace", "new", "null", "object", "operator", "out", "override", "params",
   "private", "protected", "public", "readonly", "ref", "return", "sbyte", "sealed", "short", "sizeof",
   "stackalloc", "static", "string", "struct", "switch", "this", "throw", "true", "try", "typeof", "uint", "ulong",
   "unchecked", "unsafe", "ushort", "using", "virtual", "void", "volatile", "while"]

namespace Token

def isIdentifier (token : Token) : Bool :=
  token.kind == .word && !reservedWords.contains token.text

/-- A token that is spelled in one way only: a keyword, an operator or a bracket. -/
def isFixed (token : Token) (text : String) : Bool :=
  (token.kind == .word || token.kind == .symbol) && token.text == text

/-- A string literal in one of its plain forms. -/
def isString (token : Token) : Bool :=
  match token.kind with
  | .string _ => true
  | _ => false

/-- The text that a string literal stands for. -/
def value? (token : Token) : Option String :=
  match token.kind with
  | .string form => (form.value? token.text.toList).map String.ofList
  | _ => none

end Token

end TextHarvest.CSharp
