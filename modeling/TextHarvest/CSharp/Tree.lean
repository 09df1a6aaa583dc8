import TextHarvest.CSharp.Token

/-! # Trees of C# source

A `Tree` keeps every token as a leaf, in source order, and a node for each construct whose shape somebody asks for:
calls, creations, the names and arguments in them, and what may stand as a statement of its own. Other constructs
leave their parts to the node around them.

`Tree.preorder` lists a tree and all trees inside it, each before its parts.
-/

namespace TextHarvest.CSharp

/-- The constructs that have a node of their own. -/
inductive NodeKind
  /-- The whole source. -/
  | sourceFile
  /-- `f(…)`: the function and its `argumentList`. -/
  | invocation
  /-- `x.name` or `x->name`: the object, the operator, and the name. -/
  | memberAccess
  /-- `x?.name` or `x?[…]`. -/
  | conditionalAccess
  /-- `x[…]`. -/
  | elementAccess
  /-- `Name<…>`: the name and its type arguments. -/
  | genericName
  /-- `new Type(…) {…}`: the word, the type, then the `argumentList` and the initializer, if they are there. -/
  | creation
  /-- The round brackets of an invocation or a creation, with the arguments between them. -/
  | argumentList
  /-- One argument, with its name and its modifier. -/
  | argument
  /-- A type that is more than one identifier. -/
  | typeName
  /-- `x = y` and its relatives. -/
  | assignment
  /-- `x++`, `--x`. -/
  | increment
  /-- `await x`. -/
  | awaiting
  /-- Any other operator with its operands. -/
  | operation
  /-- Any other compound expression. -/
  | compound
deriving DecidableEq, Repr

inductive Tree
  | leaf (token : Token)
  | node (kind : NodeKind) (children : List Tree)
deriving Repr

namespace Tree

mutual

/-- The tree and all trees inside it, each before its parts and parts in source order. -/
def preorder : Tree → List Tree
  | leaf token => [leaf token]
  | node kind children => node kind children :: preorderAll children

def preorderAll : List Tree → List Tree
  | [] => []
  | tree :: rest => preorder tree ++ preorderAll rest

end

mutual

def tokens : Tree → List Token
  | leaf token => [token]
  | node _ children => tokensAll children

def tokensAll : List Tree → List Token
  | [] => []
  | tree :: rest => tokens tree ++ tokensAll rest

end

mutual

def firstToken? : Tree → Option Token
  | leaf token => some token
  | node _ children => firstTokenOf? children

def firstTokenOf? : List Tree → Option Token
  | [] => none
  | tree :: rest =>
    match firstToken? tree with
    | some token => some token
    | none => firstTokenOf? rest

end

/-- The line on which a tree starts; a tree without tokens counts as starting on the first line. -/
def line (tree : Tree) : Nat :=
  match tree.firstToken? with
  | some token => token.line
  | none => 1

def kind? : Tree → Option NodeKind
  | leaf _ => none
  | node kind _ => some kind

def children : Tree → List Tree
  | leaf _ => []
  | node _ children => children

theorem length_preorder (tree : Tree) : (preorder tree).length = (preorderAll tree.children).length + 1 := by
  cases tree <;> rfl

end Tree

end TextHarvest.CSharp
