import Mathlib.Data.List.Chain
import Mathlib.Data.List.Lex
import TextHarvest.CSharp.Cursor

/-! # Where a walk through a tree leads

The address of a tree inside another one is the row of positions that leads down to it. In the lexicographic order of
addresses a node comes before its parts, and its parts come in the order of the source. A walk from the top of a tree
stops at all addresses of the tree, once each and in this order, and there it ends (`isWalk_stops`).

What carries the proof is the list of all that lies ahead of a cursor: one step of the walk takes the first of it
(`ahead_of_advance?`).
-/

namespace TextHarvest.CSharp

namespace Tree

/-- The tree at an address, which gives a position among the parts at every level. -/
def at? : List Nat → Tree → Option Tree
  | [], tree => some tree
  | position :: rest, tree =>
    match tree.children[position]? with
    | some child => child.at? rest
    | none => none

mutual

/-- The tree and all trees inside it with their addresses, each before its parts; the tree itself stands at
`address`. -/
def numbered (address : List Nat) : Tree → List (List Nat × Tree)
  | leaf token => [(address, leaf token)]
  | node kind children => (address, node kind children) :: numberedFrom address 0 children

/-- The trees of a row of parts with their addresses, where the first part stands at `position` in the node at
`address`. -/
def numberedFrom (address : List Nat) (position : Nat) : List Tree → List (List Nat × Tree)
  | [] => []
  | tree :: rest => numbered (address ++ [position]) tree ++ numberedFrom address (position + 1) rest

end

private theorem numbered_eq (address : List Nat) (tree : Tree) :
    numbered address tree = (address, tree) :: numberedFrom address 0 tree.children := by
  cases tree with
  | leaf token => simp [numbered, numberedFrom, children]
  | node kind parts => rw [numbered, children]

mutual

private theorem map_snd_numbered (address : List Nat) (tree : Tree) :
    (numbered address tree).map Prod.snd = preorder tree := by
  cases tree with
  | leaf token => rfl
  | node kind parts => rw [numbered, preorder, List.map_cons, map_snd_numberedFrom address 0 parts]

private theorem map_snd_numberedFrom (address : List Nat) (position : Nat) (trees : List Tree) :
    (numberedFrom address position trees).map Prod.snd = preorderAll trees := by
  cases trees with
  | nil => rfl
  | cons tree rest =>
    rw [numberedFrom, preorderAll, List.map_append, map_snd_numbered (address ++ [position]) tree,
      map_snd_numberedFrom address (position + 1) rest]

end

mutual

/-- The numbered trees are those that their addresses lead to. -/
theorem mem_numbered_iff (address place : List Nat) (tree part : Tree) :
    (place, part) ∈ numbered address tree ↔ ∃ below, place = address ++ below ∧ tree.at? below = some part := by
  cases tree with
  | leaf token =>
    rw [numbered, List.mem_singleton, Prod.mk.injEq]
    constructor
    · rintro ⟨rfl, rfl⟩
      exact ⟨[], (List.append_nil place).symm, rfl⟩
    · rintro ⟨below, rfl, found⟩
      cases below with
      | nil =>
        cases found
        exact ⟨List.append_nil address, rfl⟩
      | cons position below => cases found
  | node kind parts =>
    rw [numbered, List.mem_cons, Prod.mk.injEq, mem_numberedFrom_iff address 0 place parts part]
    constructor
    · rintro (⟨rfl, rfl⟩ | ⟨index, below, child, rfl, here, found⟩)
      · exact ⟨[], (List.append_nil place).symm, rfl⟩
      · refine ⟨index :: below, by rw [Nat.zero_add], ?_⟩
        simp only [at?, children, here, found]
    · rintro ⟨below, rfl, found⟩
      cases below with
      | nil =>
        cases found
        exact .inl ⟨List.append_nil address, rfl⟩
      | cons index below =>
        simp only [at?, children] at found
        split at found
        · rename_i child here
          exact .inr ⟨index, below, child, by rw [Nat.zero_add], here, found⟩
        · cases found

private theorem mem_numberedFrom_iff (address : List Nat) (position : Nat) (place : List Nat) (trees : List Tree)
    (part : Tree) : (place, part) ∈ numberedFrom address position trees ↔
      ∃ index below child, place = address ++ (position + index) :: below ∧ trees[index]? = some child ∧
        child.at? below = some part := by
  cases trees with
  | nil => simp [numberedFrom]
  | cons tree rest =>
    rw [numberedFrom, List.mem_append, mem_numbered_iff (address ++ [position]) place tree part,
      mem_numberedFrom_iff address (position + 1) place rest part]
    constructor
    · rintro (⟨below, rfl, found⟩ | ⟨index, below, child, rfl, here, found⟩)
      · exact ⟨0, below, tree, by simp, rfl, found⟩
      · exact ⟨index + 1, below, child, by rw [Nat.add_right_comm, Nat.add_assoc], here, found⟩
    · rintro ⟨index, below, child, rfl, here, found⟩
      cases index with
      | zero =>
        cases here
        exact .inl ⟨below, by simp, found⟩
      | succ index => exact .inr ⟨index, below, child, by rw [Nat.add_right_comm, Nat.add_assoc], here, found⟩

end

private theorem lt_append_cons (address : List Nat) (position : Nat) (below : List Nat) :
    address < address ++ position :: below := by
  have longer : address ++ [] < address ++ position :: below := List.append_left_lt (List.nil_lt_cons position below)
  rwa [List.append_nil] at longer

private theorem append_cons_lt_append_cons {first second : Nat} (smaller : first < second)
    (address below other : List Nat) : address ++ first :: below < address ++ second :: other :=
  List.append_left_lt (List.cons_lt_cons_iff.mpr (.inl smaller))

mutual

/-- The numbered trees come in the order of their addresses. -/
theorem pairwise_numbered (address : List Nat) (tree : Tree) :
    (numbered address tree).Pairwise fun first second => first.1 < second.1 := by
  cases tree with
  | leaf token => exact List.pairwise_singleton ..
  | node kind parts =>
    rw [numbered, List.pairwise_cons]
    refine ⟨?_, pairwise_numberedFrom address 0 parts⟩
    rintro ⟨place, part⟩ member
    obtain ⟨index, below, child, rfl, _⟩ := (mem_numberedFrom_iff ..).mp member
    exact lt_append_cons ..

private theorem pairwise_numberedFrom (address : List Nat) (position : Nat) (trees : List Tree) :
    (numberedFrom address position trees).Pairwise fun first second => first.1 < second.1 := by
  cases trees with
  | nil => exact .nil
  | cons tree rest =>
    rw [numberedFrom, List.pairwise_append]
    refine ⟨pairwise_numbered (address ++ [position]) tree, pairwise_numberedFrom address (position + 1) rest, ?_⟩
    rintro ⟨place, part⟩ member ⟨otherPlace, otherPart⟩ otherMember
    obtain ⟨below, rfl, _⟩ := (mem_numbered_iff ..).mp member
    obtain ⟨index, otherBelow, child, rfl, _⟩ := (mem_numberedFrom_iff ..).mp otherMember
    rw [List.append_assoc, List.singleton_append]
    exact append_cons_lt_append_cons (by omega) ..

end

end Tree

namespace Cursor

/-- The address of the node that frames lead down from. -/
def addressOf (above : List Frame) : List Nat :=
  (above.map fun frame => frame.before.length).reverse

def address (cursor : Cursor) : List Nat :=
  addressOf cursor.above

private theorem addressOf_cons (frame : Frame) (above : List Frame) :
    addressOf (frame :: above) = addressOf above ++ [frame.before.length] := by
  simp [addressOf]

/-- The trees behind the way down to a cursor, in the order of a walk. -/
def behind : List Frame → List (List Nat × Tree)
  | [] => []
  | frame :: above =>
    Tree.numberedFrom (addressOf above) (frame.before.length + 1) frame.after ++ behind above

/-- The trees that lie ahead of a cursor, in the order of a walk: those inside its own tree, then those behind it. -/
def ahead (cursor : Cursor) : List (List Nat × Tree) :=
  Tree.numberedFrom cursor.address 0 cursor.tree.children ++ behind cursor.above

private theorem ahead_of_firstChild? {cursor child : Cursor} (down : cursor.firstChild? = some child) :
    cursor.ahead = (child.address, child.tree) :: child.ahead := by
  obtain ⟨tree, above⟩ := cursor
  cases tree with
  | leaf token => cases down
  | node kind children =>
    cases children with
    | nil => cases down
    | cons first rest =>
      cases down
      simp [ahead, address, addressOf_cons, behind, Tree.children, Tree.numberedFrom, Tree.numbered_eq]

private theorem ahead_of_no_child {cursor : Cursor} (bare : cursor.firstChild? = none) :
    cursor.ahead = behind cursor.above := by
  obtain ⟨tree, above⟩ := cursor
  cases tree with
  | leaf token => rfl
  | node kind children =>
    cases children with
    | nil => rfl
    | cons first rest => cases bare

private theorem climb?_cons_nil (tree : Tree) (kind : NodeKind) (before : List Tree) (above : List Frame) :
    climb? ⟨tree, ⟨kind, before, []⟩ :: above⟩ = climb? ⟨.node kind (before.reverse ++ [tree]), above⟩ := by
  rw [climb?]
  rfl

private theorem climb?_cons_cons (tree next : Tree) (kind : NodeKind) (before after : List Tree) (above : List Frame) :
    climb? ⟨tree, ⟨kind, before, next :: after⟩ :: above⟩ =
      some ⟨next, ⟨kind, tree :: before, after⟩ :: above⟩ := by
  rw [climb?]
  rfl

/-- Climbing comes to the first of the trees behind the way down, however many levels it takes. -/
theorem behind_of_climb? (cursor : Cursor) :
    match cursor.climb? with
    | some next => behind cursor.above = (next.address, next.tree) :: next.ahead
    | none => behind cursor.above = [] := by
  obtain ⟨tree, above⟩ := cursor
  induction above generalizing tree with
  | nil =>
    rw [climb?]
    rfl
  | cons frame above ih =>
    obtain ⟨kind, before, after⟩ := frame
    cases after with
    | nil =>
      rw [climb?_cons_nil]
      simpa [behind, Tree.numberedFrom] using ih (.node kind (before.reverse ++ [tree]))
    | cons next after =>
      rw [climb?_cons_cons]
      simp [ahead, address, addressOf_cons, behind, Tree.numberedFrom, Tree.numbered_eq]

/-- One step of the walk takes the first of the trees ahead, and there is no step only if there are none. -/
theorem ahead_of_advance? (cursor : Cursor) :
    match cursor.advance? with
    | some next => cursor.ahead = (next.address, next.tree) :: next.ahead
    | none => cursor.ahead = [] := by
  unfold advance?
  cases down : cursor.firstChild? with
  | some child => exact ahead_of_firstChild? down
  | none =>
    rw [ahead_of_no_child down]
    exact behind_of_climb? cursor

/-- A walk stops at its cursor and at all that lies ahead. -/
theorem map_stops (cursor : Cursor) :
    cursor.stops.map (fun stop => (stop.address, stop.tree)) = (cursor.address, cursor.tree) :: cursor.ahead := by
  have onward := cursor.ahead_of_advance?
  rw [stops]
  cases step : cursor.advance? with
  | none =>
    rw [step] at onward
    simp [onward]
  | some next =>
    rw [step] at onward
    simp only [List.map_cons, map_stops next, onward]
termination_by cursor.remaining
decreasing_by exact remaining_of_advance? step

private theorem map_stops_top (tree : Tree) :
    (stops ⟨tree, []⟩).map (fun stop => (stop.address, stop.tree)) = Tree.numbered [] tree := by
  rw [map_stops, Tree.numbered_eq, ahead, behind, List.append_nil]
  rfl

/-- One stop follows another by one step, and the last has no step. -/
theorem stops_chain (cursor : Cursor) :
    cursor.stops.IsChain (fun stop next => stop.advance? = some next) ∧
      ∃ before last, cursor.stops = before ++ [last] ∧ last.advance? = none := by
  rw [stops]
  cases step : cursor.advance? with
  | none => exact ⟨.singleton cursor, [], cursor, rfl, step⟩
  | some next =>
    obtain ⟨chain, before, last, whole, ended⟩ := stops_chain next
    refine ⟨chain.cons ?_, cursor :: before, last, by simp [whole], ended⟩
    intro second here
    rw [stops] at here
    cases here
    exact step
termination_by cursor.remaining
decreasing_by exact remaining_of_advance? step

/-- The stops are a whole walk through a tree: it goes step by step from the top to where there is no step left, and it
comes to every tree inside, once each, a node before its parts and the parts in order. -/
structure IsWalk (tree : Tree) (stops : List Cursor) : Prop where
  start : stops.head? = some ⟨tree, []⟩
  steps : stops.IsChain (fun stop next => stop.advance? = some next)
  ended : ∃ before last, stops = before ++ [last] ∧ last.advance? = none
  ordered : (stops.map address).Pairwise (· < ·)
  mem_iff : ∀ place part, (∃ stop ∈ stops, stop.address = place ∧ stop.tree = part) ↔ tree.at? place = some part

theorem isWalk_stops (tree : Tree) : IsWalk tree (stops ⟨tree, []⟩) where
  start := by
    rw [stops]
    rfl
  steps := (stops_chain _).1
  ended := (stops_chain _).2
  ordered := by
    have addresses := congrArg (List.map Prod.fst) (map_stops_top tree)
    rw [List.map_map] at addresses
    change (stops ⟨tree, []⟩).map address = _ at addresses
    rw [addresses, List.pairwise_map]
    exact Tree.pairwise_numbered [] tree
  mem_iff := by
    intro place part
    have stopped : (∃ stop ∈ stops ⟨tree, []⟩, stop.address = place ∧ stop.tree = part) ↔
        (place, part) ∈ Tree.numbered [] tree := by
      rw [← map_stops_top, List.mem_map]
      simp only [Prod.mk.injEq]
    rw [stopped, Tree.mem_numbered_iff]
    simp

/-- A walk from the top visits a node before its parts and the parts in order. -/
theorem visits_eq_preorder (tree : Tree) : visits tree = tree.preorder := by
  have trees := congrArg (List.map Prod.snd) (map_stops_top tree)
  rwa [List.map_map, Tree.map_snd_numbered] at trees

end Cursor

end TextHarvest.CSharp
