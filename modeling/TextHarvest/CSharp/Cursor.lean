import TextHarvest.CSharp.Tree

/-! # Walking through a tree

A `Cursor` stands at a tree inside a larger one and remembers the way back up. It moves to the first part of its tree,
to the next tree beside it, or up to the node around it.

`Cursor.stops` walks on from a cursor: down where there are parts, otherwise to the next tree beside it or beside the
innermost node around it that has one, until there is nothing left. No stop is ever repeated, because the trees that lie
ahead of the cursor become fewer with every step.
-/

namespace TextHarvest.CSharp

/-- A node on the way down to a cursor, without the part that the way leads into. -/
structure Frame where
  kind : NodeKind
  /-- The parts before that part, the nearest first. -/
  before : List Tree
  /-- The parts behind it. -/
  after : List Tree
deriving Repr

/-- A tree and the nodes around it, the innermost first. -/
structure Cursor where
  tree : Tree
  above : List Frame := []
deriving Repr

namespace Cursor

def firstChild? (cursor : Cursor) : Option Cursor :=
  match cursor.tree with
  | .node kind (first :: rest) => some ⟨first, ⟨kind, [], rest⟩ :: cursor.above⟩
  | _ => none

def nextSibling? (cursor : Cursor) : Option Cursor :=
  match cursor.above with
  | ⟨kind, before, next :: after⟩ :: above => some ⟨next, ⟨kind, cursor.tree :: before, after⟩ :: above⟩
  | _ => none

def parent? (cursor : Cursor) : Option Cursor :=
  match cursor.above with
  | ⟨kind, before, after⟩ :: above => some ⟨.node kind (before.reverse ++ cursor.tree :: after), above⟩
  | [] => none

theorem length_above_of_parent? {cursor parent : Cursor} (up : cursor.parent? = some parent) :
    cursor.above.length = parent.above.length + 1 := by
  obtain ⟨tree, above⟩ := cursor
  cases above with
  | nil => cases up
  | cons frame above =>
    cases up
    rfl

/-- On to the next tree beside the cursor, or else up and on from there. -/
def climb? (cursor : Cursor) : Option Cursor :=
  match cursor.nextSibling? with
  | some next => some next
  | none =>
    match _up : cursor.parent? with
    | some parent => parent.climb?
    | none => none
termination_by cursor.above.length
decreasing_by
  rw [length_above_of_parent? _up]
  omega

def advance? (cursor : Cursor) : Option Cursor :=
  match cursor.firstChild? with
  | some child => some child
  | none => cursor.climb?

/-- The number of trees that the walk has not come to yet. -/
def remaining (cursor : Cursor) : Nat :=
  (Tree.preorderAll cursor.tree.children).length +
    (cursor.above.flatMap fun frame => Tree.preorderAll frame.after).length

theorem remaining_of_firstChild? {cursor child : Cursor} (down : cursor.firstChild? = some child) :
    child.remaining < cursor.remaining := by
  obtain ⟨tree, above⟩ := cursor
  cases tree with
  | leaf token => cases down
  | node kind children =>
    cases children with
    | nil => cases down
    | cons first rest =>
      cases down
      simp only [remaining, Tree.children, Tree.preorderAll, List.length_append, Tree.length_preorder,
        List.flatMap_cons]
      omega

/-- Climbing leaves all trees below the cursor behind. -/
theorem remaining_of_climb? {cursor next : Cursor} (onward : cursor.climb? = some next) :
    next.remaining < (cursor.above.flatMap fun frame => Tree.preorderAll frame.after).length := by
  obtain ⟨tree, above⟩ := cursor
  induction above generalizing tree with
  | nil =>
    rw [climb?] at onward
    cases onward
  | cons frame above ih =>
    obtain ⟨kind, before, after⟩ := frame
    cases after with
    | nil =>
      rw [climb?] at onward
      simpa [Tree.preorderAll] using ih _ onward
    | cons sibling after =>
      rw [climb?] at onward
      cases onward
      simp only [remaining, Tree.preorderAll, List.length_append, Tree.length_preorder, List.flatMap_cons]
      omega

theorem remaining_of_advance? {cursor next : Cursor} (step : cursor.advance? = some next) :
    next.remaining < cursor.remaining := by
  unfold advance? at step
  split at step
  · rename_i child down
    cases step
    exact remaining_of_firstChild? down
  · exact Nat.lt_of_lt_of_le (remaining_of_climb? step) (Nat.le_add_left ..)

/-- The cursor and all cursors that the walk comes to from there, in order. -/
def stops (cursor : Cursor) : List Cursor :=
  cursor ::
    match _step : cursor.advance? with
    | some next => next.stops
    | none => []
termination_by cursor.remaining
decreasing_by exact remaining_of_advance? _step

/-- The trees that a walk from the top of a tree comes to, in order. -/
def visits (tree : Tree) : List Tree :=
  (stops ⟨tree, []⟩).map Cursor.tree

end Cursor

end TextHarvest.CSharp
