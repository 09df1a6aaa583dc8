/-! # Records of localizable text

A `TextRecord` says that a text which is shown to users stands at some place in the sources. Its id is the text
itself; a context tells equal texts apart, and a plural is the text for several things. An optional part that is set
and empty differs from one that is not set.

A `TextCall` is the shape of a call in C# source that may carry such a text. `TextCall.record?` is where the
positions of its literal arguments get their meaning.
-/

namespace TextHarvest

/-- A localizable text and the place where it was found. -/
structure TextRecord where
  path : String
  /-- The line, counted from 1. -/
  line : Nat
  id : String
  context : Option String := none
  plural : Option String := none
  comment : Option String := none
deriving DecidableEq, Repr

/-- A call that may carry a localizable text. -/
structure TextCall where
  /-- The line on which the whole call starts. -/
  line : Nat
  /-- The values of the arguments that are plain string literals, in order. -/
  literals : List String
  /-- The number of all arguments. -/
  argumentCount : Nat
deriving DecidableEq, Repr

/-- The context, the id and the plural of a call, by the number of its literals: one is the id; two are the context
and the id, or the id and the plural if a third argument gives the count; three are context, id and plural. -/
def TextCall.parts? (call : TextCall) : Option (Option String × String × Option String) :=
  match call.literals with
  | [id] => some (none, id, none)
  | [first, second] =>
    if call.argumentCount = 3 then some (none, first, some second) else some (some first, second, none)
  | [context, id, plural] => some (some context, id, some plural)
  | _ => none

/-- The record of a call in the file at `path`; a call with an empty id has none. -/
def TextCall.record? (call : TextCall) (path : String) : Option TextRecord :=
  match call.parts? with
  | none => none
  | some (context, id, plural) =>
    if id = "" then none else some { path, line := call.line, id, context, plural }

end TextHarvest
