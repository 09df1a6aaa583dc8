import TextHarvest.CSharp.Tree

/-! # Rules that read trees from tokens

A `Rule` describes how a construct is read from the front of a token row: a token of some class, one rule after
another, the first of several that fits, and so on. A rule may refer to a named construct; which construct a name
stands for is settled by a `Grammar`.

`Rule.read` runs a rule. A choice is settled by the first alternative that can be read and is not taken back later.
`Grammar.read` ties the names to their rules; every reference uses up one unit of its depth, so a grammar that
refers to itself without reading anything stops as well. A repetition stops after as many rounds as there are tokens.
-/

namespace TextHarvest.CSharp

/-- How a construct is read; `Name` is the type of names of constructs. -/
inductive Rule (Name : Type) where
  /-- Reads nothing. -/
  | empty
  /-- Fits nowhere. -/
  | never
  /-- One token of a class. -/
  | token (accepts : Token → Bool)
  /-- The construct of that name. -/
  | call (name : Name)
  /-- The first rule, then the second. -/
  | seq (first second : Rule Name)
  /-- The first rule, or else the second. -/
  | alt (first second : Rule Name)
  /-- The rule again and again, for as long as it fits and reads something. -/
  | many (item : Rule Name)
  /-- Reads nothing, but only where the rule fits. -/
  | ahead (rule : Rule Name)
  /-- Reads nothing, but only where the rule does not fit. -/
  | notAhead (rule : Rule Name)
  /-- What the rule reads, as the parts of one node. -/
  | node (kind : NodeKind) (parts : Rule Name)
  /-- What the head reads, and then again and again one more node that takes all that was read as its first part. -/
  | chain (head extension : Rule Name)
  /-- What the rule reads, if it is one tree with the property. -/
  | only (accepts : Tree → Bool) (rule : Rule Name)

/-- The trees read and the tokens left. -/
abbrev Reading := List Tree × List Token

namespace Rule

variable {Name : Type}

/-- Read with `step` for as long as it fits and reads something, at most `limit` times. -/
def repeatRead (step : List Token → Option Reading) : Nat → List Token → Reading
  | 0, tokens => ([], tokens)
  | limit + 1, tokens =>
    match step tokens with
    | none => ([], tokens)
    | some ([], _) => ([], tokens)
    | some (tree :: trees, rest) =>
      let (more, rest) := repeatRead step limit rest
      (tree :: trees ++ more, rest)

/-- Put trees in front of the parts of the node that was read. -/
def attach (first : List Tree) : List Tree → List Tree
  | [.node kind parts] => [.node kind (first ++ parts)]
  | trees => first ++ trees

/-- Extend `first` with `step` for as long as it fits and reads something, at most `limit` times. -/
def extendRead (step : List Token → Option Reading) : Nat → List Tree → List Token → Reading
  | 0, first, tokens => (first, tokens)
  | limit + 1, first, tokens =>
    match step tokens with
    | none => (first, tokens)
    | some ([], _) => (first, tokens)
    | some (tree :: trees, rest) => extendRead step limit (attach first (tree :: trees)) rest

/-- Run a rule at the front of a token row, where `call` reads the named constructs and `limit` bounds
repetitions. -/
def read (limit : Nat) (call : Name → List Token → Option Reading) : Rule Name → List Token → Option Reading
  | empty, tokens => some ([], tokens)
  | never, _ => none
  | token _, [] => none
  | token accepts, first :: rest => if accepts first then some ([.leaf first], rest) else none
  | .call name, tokens => call name tokens
  | seq first second, tokens =>
    match first.read limit call tokens with
    | none => none
    | some (trees, rest) =>
      match second.read limit call rest with
      | none => none
      | some (more, rest) => some (trees ++ more, rest)
  | alt first second, tokens =>
    match first.read limit call tokens with
    | some reading => some reading
    | none => second.read limit call tokens
  | many item, tokens => some (repeatRead (item.read limit call) limit tokens)
  | ahead rule, tokens => if (rule.read limit call tokens).isSome then some ([], tokens) else none
  | notAhead rule, tokens => if (rule.read limit call tokens).isSome then none else some ([], tokens)
  | node kind parts, tokens =>
    match parts.read limit call tokens with
    | none => none
    | some (trees, rest) => some ([.node kind trees], rest)
  | chain head extension, tokens =>
    match head.read limit call tokens with
    | none => none
    | some (trees, rest) => some (extendRead (extension.read limit call) limit trees rest)
  | only accepts rule, tokens =>
    match rule.read limit call tokens with
    | some ([tree], rest) => if accepts tree then some ([tree], rest) else none
    | _ => none

def all : List (Rule Name) → Rule Name
  | [] => empty
  | [rule] => rule
  | rule :: rest => seq rule (all rest)

/-- The first of the rules that fits. -/
def any : List (Rule Name) → Rule Name
  | [] => never
  | [rule] => rule
  | rule :: rest => alt rule (any rest)

def optional (rule : Rule Name) : Rule Name :=
  alt rule empty

def oneOrMore (rule : Rule Name) : Rule Name :=
  seq rule (many rule)

/-- The rule at least once, with the separator between two of them. -/
def separated (separator rule : Rule Name) : Rule Name :=
  seq rule (many (seq separator rule))

/-- A keyword, an operator or a bracket. -/
def fixed (text : String) : Rule Name :=
  token (·.isFixed text)

def ofKind (kind : TokenKind) : Rule Name :=
  token (·.kind == kind)

def oneOf (texts : List String) : Rule Name :=
  token fun found => (found.kind == .word || found.kind == .symbol) && texts.contains found.text

/-- A keyword, an operator or a bracket is written as itself. -/
instance : Coe String (Rule Name) := ⟨fixed⟩

end Rule

/-- A rule for every name. -/
abbrev Grammar (Name : Type) := Name → Rule Name

/-- Read the named construct; references may be nested as deep as `depth`, and `limit` bounds repetitions. -/
def Grammar.read {Name : Type} (grammar : Grammar Name) (limit : Nat) :
    Nat → Name → List Token → Option Reading
  | 0, _, _ => none
  | depth + 1, name, tokens => (grammar name).read limit (grammar.read limit depth) tokens

end TextHarvest.CSharp
