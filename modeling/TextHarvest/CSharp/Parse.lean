import TextHarvest.CSharp.Grammar
import TextHarvest.CSharp.Tokenize

/-! # Reading a source file

`parse` reads a whole C# source text: it is cut into tokens, and all of them must make one source file of the
grammar.
-/

namespace TextHarvest.CSharp

/-- The trees of a token row that is one source file, in source order. -/
def parseTokens (tokens : List Token) : Option (List Tree) :=
  let count := tokens.length + 1
  match grammar.read count (constructCount * count) .sourceFile tokens with
  | some (trees, []) => some trees
  | _ => none

/-- The trees of a C# source text, in source order. One byte-order mark may open the text. -/
def parse (source : String) : Option (List Tree) :=
  match tokenize (Text.dropByteOrderMark source.toList) with
  | none => none
  | some tokens => parseTokens tokens

end TextHarvest.CSharp
