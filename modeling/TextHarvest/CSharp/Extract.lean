import TextHarvest.CSharp.Cursor
import TextHarvest.CSharp.Parse
import TextHarvest.Record

/-! # Localizable texts in C# source

Two constructs carry localizable texts: the call of a member with a given name (`x.GetText("id")`) and the creation
of an object of a given type (`new LocalizedText("id")`). `textCall?` recognises one at a tree; `extract?` lists the
records of a whole source in the order in which a cursor walks through its trees, so an enclosing call comes before the
calls in its arguments, and of a chain of calls the last comes first.
-/

namespace TextHarvest.CSharp

/-- The names that mark localizable texts in C# source. -/
structure Markers where
  /-- The member whose calls carry texts. -/
  callName : String
  /-- The type whose creations carry texts. -/
  typeName : String
deriving DecidableEq, Repr

namespace Tree

/-- The token of a bare identifier. -/
def identifier? : Tree → Option Token
  | leaf token => if token.isIdentifier then some token else none
  | node _ _ => none

/-- The name of a member: an identifier, or the identifier before type arguments. -/
def memberName? : Tree → Option String
  | node .genericName (name :: _) => name.identifier?.map Token.text
  | tree => tree.identifier?.map Token.text

/-- Is the tree the function of a call to a member with the given name? -/
def isMemberNamed (name : String) : Tree → Bool
  | node .memberAccess children =>
    match children.getLast? with
    | some member => member.memberName? == some name
    | none => false
  | _ => false

/-- Is the tree an identifier that names the given type? At signs before it do not count. -/
def isTypeNamed (name : String) (tree : Tree) : Bool :=
  match tree.identifier? with
  | some token => token.text.toList.dropWhile (· = '@') == name.toList
  | none => false

/-- Does the tree call a marked member or create an object of a marked type? -/
def isMarked (markers : Markers) : Tree → Bool
  | node .invocation (function :: _) => function.isMemberNamed markers.callName
  | node .creation (_ :: type :: _) => type.isTypeNamed markers.typeName
  | _ => false

/-- The value of an argument that is one plain string literal, apart from its name and its modifier. -/
def literalArgument? (argument : Tree) : Option String :=
  match argument.children.getLast? with
  | some (leaf token) => token.value?
  | _ => none

def arguments? (tree : Tree) : Option (List Tree) :=
  (tree.children.find? fun child => child.kind? == some .argumentList).map fun list =>
    list.children.filter fun child => child.kind? == some .argument

/-- The call that a tree is, if it is one that may carry a localizable text. -/
def textCall? (markers : Markers) (tree : Tree) : Option TextCall :=
  if tree.isMarked markers then
    tree.arguments?.map fun arguments =>
      { line := tree.line
        literals := arguments.filterMap literalArgument?
        argumentCount := arguments.length }
  else none

/-- The record that a tree in the file at `path` makes, if it is a call that carries a text. -/
def record? (markers : Markers) (path : String) (tree : Tree) : Option TextRecord :=
  match tree.textCall? markers with
  | some call => call.record? path
  | none => none

end Tree

/-- The records of a source that is a row of trees, in the order of a walk through them. -/
def recordsOf (markers : Markers) (path : String) (trees : List Tree) : List TextRecord :=
  (Cursor.visits (.node .sourceFile trees)).filterMap (Tree.record? markers path)

/-- The records of a C# source text, or `none` if the text is not C#. -/
def extract? (markers : Markers) (path source : String) : Option (List TextRecord) :=
  (parse source).map (recordsOf markers path)

/-- The string literals of a C# source text, in source order. -/
def literals? (source : String) : Option (List Token) :=
  (parse source).map fun trees => (Tree.tokensAll trees).filter Token.isString

end TextHarvest.CSharp
