import TextHarvest.CSharp.Extract
import TextHarvest.Proofs.CSharp.Walk

/-! # Which trees make records

`Announces` says, apart from the functions that look for it, what a tree must be to make a record, and which record it
makes: it calls a marked member or creates an object of a marked type, it has an argument list, and the literals among
the arguments can be read as an id with or without a context and a plural. The records of a source are those of the
trees at the stops of a walk through it, one for each that announces one (`extract?_announced`).
-/

namespace TextHarvest.CSharp

namespace Tree

def IsIdentifier (text : String) (tree : Tree) : Prop :=
  ∃ token : Token, tree = leaf token ∧ token.isIdentifier = true ∧ token.text = text

/-- The name of a member: an identifier, alone or with type arguments behind it. -/
inductive IsMember (name : String) : Tree → Prop
  | plain {tree : Tree} (named : tree.IsIdentifier name) : IsMember name tree
  | generic {identifier : Tree} {rest : List Tree} (named : identifier.IsIdentifier name) :
      IsMember name (node .genericName (identifier :: rest))

/-- A call of a marked member of some object, or the creation of an object whose type is no more than a marked name;
at signs before the name of the type do not count. -/
inductive Qualifies (markers : Markers) : Tree → Prop
  | call {parts rest : List Tree} {member : Tree} (named : member.IsMember markers.callName) :
      Qualifies markers (node .invocation (node .memberAccess (parts ++ [member]) :: rest))
  | creation {word type : Tree} {rest : List Tree} {text : String} (named : type.IsIdentifier text)
      (marked : text.toList.dropWhile (· = '@') = markers.typeName.toList) :
      Qualifies markers (node .creation (word :: type :: rest))

/-- The arguments in the first argument list of a node. -/
def HasArguments (tree : Tree) (arguments : List Tree) : Prop :=
  ∃ before parts after, tree.children = before ++ node .argumentList parts :: after ∧
    (∀ part ∈ before, part.kind? ≠ some .argumentList) ∧
    arguments = parts.filter fun part => part.kind? = some .argument

/-- An argument that is, behind its name and its modifier, a string literal with a value. -/
def IsLiteral (value : String) (argument : Tree) : Prop :=
  ∃ front token, argument.children = front ++ [leaf token] ∧ token.value? = some value

end Tree

/-- The values of the literals among arguments, in order; the other arguments are passed over. -/
inductive Spells : List Tree → List String → Prop
  | nil : Spells [] []
  | literal {argument : Tree} {arguments : List Tree} {value : String} {values : List String}
      (here : argument.IsLiteral value) (rest : Spells arguments values) :
      Spells (argument :: arguments) (value :: values)
  | other {argument : Tree} {arguments : List Tree} {values : List String}
      (different : ∀ value, ¬ argument.IsLiteral value) (rest : Spells arguments values) :
      Spells (argument :: arguments) values

/-- How the literals of a call with so many arguments are read, as context, id and plural. -/
inductive Roles (count : Nat) : List String → Option String → String → Option String → Prop
  | id (id : String) : Roles count [id] none id none
  | plural (id plural : String) (three : count = 3) : Roles count [id, plural] none id (some plural)
  | context (context id : String) (other : count ≠ 3) : Roles count [context, id] (some context) id none
  | all (context id plural : String) : Roles count [context, id, plural] (some context) id (some plural)

/-- The tree makes the record. -/
structure Announces (markers : Markers) (path : String) (tree : Tree) (record : TextRecord) : Prop where
  qualifies : tree.Qualifies markers
  roles : ∃ arguments literals, tree.HasArguments arguments ∧ Spells arguments literals ∧
    Roles arguments.length literals record.context record.id record.plural
  id_ne : record.id ≠ ""
  path_eq : record.path = path
  line_eq : record.line = tree.line
  comment_eq : record.comment = none

namespace Tree

private theorem identifier?_eq_some_iff {tree : Tree} {token : Token} :
    tree.identifier? = some token ↔ tree = leaf token ∧ token.isIdentifier = true := by
  cases tree with
  | leaf own =>
    rw [identifier?]
    constructor
    · intro found
      split_ifs at found with identifies
      cases found
      exact ⟨rfl, identifies⟩
    · rintro ⟨same, identifies⟩
      cases same
      exact if_pos identifies
  | node kind children => simp [identifier?]

private theorem map_identifier?_eq_some_iff {tree : Tree} {text : String} :
    tree.identifier?.map Token.text = some text ↔ tree.IsIdentifier text := by
  simp only [Option.map_eq_some_iff, identifier?_eq_some_iff, IsIdentifier, and_assoc]

private theorem memberName?_eq_some_iff {tree : Tree} {name : String} :
    tree.memberName? = some name ↔ tree.IsMember name := by
  unfold memberName?
  split
  · rename_i identifier rest
    rw [map_identifier?_eq_some_iff]
    constructor
    · exact .generic
    · rintro (⟨⟨token, same, _⟩⟩ | named)
      · cases same
      · exact named
  · rename_i notGeneric
    rw [map_identifier?_eq_some_iff]
    constructor
    · exact .plain
    · rintro (named | _)
      · exact named
      · exact absurd rfl (notGeneric _ _)

private theorem isMemberNamed_iff {tree : Tree} {name : String} : tree.isMemberNamed name = true ↔
    ∃ parts member, tree = node .memberAccess (parts ++ [member]) ∧ member.IsMember name := by
  unfold isMemberNamed
  split
  · rename_i children
    cases last : children.getLast? with
    | none =>
      obtain rfl := List.getLast?_eq_none_iff.mp last
      simp
    | some own =>
      obtain ⟨front, rfl⟩ := List.getLast?_eq_some_iff.mp last
      simp only [beq_iff_eq, memberName?_eq_some_iff]
      constructor
      · intro named
        exact ⟨front, own, rfl, named⟩
      · rintro ⟨parts, member, same, named⟩
        obtain ⟨_, rfl⟩ : front = parts ∧ own = member := by simpa using same
        exact named
  · rename_i other
    simp only [Bool.false_eq_true, false_iff]
    rintro ⟨parts, member, rfl, _⟩
    exact other _ rfl

private theorem isTypeNamed_iff {tree : Tree} {name : String} : tree.isTypeNamed name = true ↔
    ∃ text, tree.IsIdentifier text ∧ text.toList.dropWhile (· = '@') = name.toList := by
  unfold isTypeNamed
  split
  · rename_i token found
    obtain ⟨rfl, identifies⟩ := identifier?_eq_some_iff.mp found
    rw [beq_iff_eq]
    constructor
    · intro same
      exact ⟨token.text, ⟨token, rfl, identifies, rfl⟩, same⟩
    · rintro ⟨_, ⟨_, own, _, rfl⟩, same⟩
      cases own
      exact same
  · rename_i missing
    simp only [Bool.false_eq_true, false_iff]
    rintro ⟨_, ⟨token, same, identifies, _⟩, _⟩
    cases (identifier?_eq_some_iff.mpr ⟨same, identifies⟩).symm.trans missing

private theorem isMarked_iff {markers : Markers} {tree : Tree} :
    tree.isMarked markers = true ↔ tree.Qualifies markers := by
  unfold isMarked
  split
  · rename_i function rest
    rw [isMemberNamed_iff]
    constructor
    · rintro ⟨parts, member, rfl, named⟩
      exact .call named
    · intro qualifies
      cases qualifies with
      | call named => exact ⟨_, _, rfl, named⟩
  · rename_i word type rest
    rw [isTypeNamed_iff]
    constructor
    · rintro ⟨text, named, marked⟩
      exact .creation named marked
    · intro qualifies
      cases qualifies with
      | creation named marked => exact ⟨_, named, marked⟩
  · rename_i noCall noCreation
    simp only [Bool.false_eq_true, false_iff]
    intro qualifies
    cases qualifies with
    | call => exact noCall _ _ rfl
    | creation => exact noCreation _ _ _ rfl

private theorem kind?_eq_some_iff {tree : Tree} {kind : NodeKind} :
    tree.kind? = some kind ↔ ∃ children, tree = node kind children := by
  cases tree with
  | leaf token => simp [kind?]
  | node own children => simp [kind?]

private theorem arguments?_eq_some_iff {tree : Tree} {arguments : List Tree} :
    tree.arguments? = some arguments ↔ tree.HasArguments arguments := by
  simp only [arguments?, Option.map_eq_some_iff, List.find?_eq_some_iff_append, HasArguments, beq_iff_eq,
    Bool.not_eq_eq_eq_not, Bool.not_true, beq_eq_false_iff_ne, kind?_eq_some_iff]
  constructor
  · rintro ⟨_, ⟨⟨parts, rfl⟩, before, after, whole, first⟩, rfl⟩
    exact ⟨before, parts, after, whole, first, by simp [children, beq_eq_decide]⟩
  · rintro ⟨before, parts, after, whole, first, rfl⟩
    exact ⟨_, ⟨⟨parts, rfl⟩, before, after, whole, first⟩, by simp [children, beq_eq_decide]⟩

private theorem literalArgument?_eq_some_iff {argument : Tree} {value : String} :
    argument.literalArgument? = some value ↔ argument.IsLiteral value := by
  unfold literalArgument?
  split
  · rename_i token last
    obtain ⟨front, whole⟩ := List.getLast?_eq_some_iff.mp last
    constructor
    · intro found
      exact ⟨front, token, whole, found⟩
    · rintro ⟨parts, own, same, found⟩
      obtain ⟨_, rfl⟩ : front = parts ∧ token = own := by simpa using whole.symm.trans same
      exact found
  · rename_i noLeaf
    simp only [reduceCtorEq, false_iff]
    rintro ⟨parts, token, whole, _⟩
    exact noLeaf token (by simp [whole])

end Tree

theorem spells_iff {arguments : List Tree} {values : List String} :
    Spells arguments values ↔ arguments.filterMap Tree.literalArgument? = values := by
  constructor
  · intro spells
    induction spells with
    | nil => rfl
    | literal here _ ih => rw [List.filterMap_cons, Tree.literalArgument?_eq_some_iff.mpr here, ih]
    | @other argument _ _ different _ ih =>
      have none : argument.literalArgument? = none := by
        rw [Option.eq_none_iff_forall_ne_some]
        intro value found
        exact different value (Tree.literalArgument?_eq_some_iff.mp found)
      rw [List.filterMap_cons, none, ih]
  · rintro rfl
    induction arguments with
    | nil => exact .nil
    | cons argument arguments ih =>
      rw [List.filterMap_cons]
      cases found : argument.literalArgument? with
      | none =>
        refine .other ?_ ih
        intro value here
        cases found.symm.trans (Tree.literalArgument?_eq_some_iff.mpr here)
      | some value => exact .literal (Tree.literalArgument?_eq_some_iff.mp found) ih

private theorem roles_iff {call : TextCall} {context plural : Option String} {id : String} :
    Roles call.argumentCount call.literals context id plural ↔ call.parts? = some (context, id, plural) := by
  obtain ⟨line, literals, count⟩ := call
  constructor
  · rintro (_ | ⟨_, _, three⟩ | ⟨_, _, other⟩ | _)
    · rfl
    · exact if_pos three
    · exact if_neg other
    · rfl
  · intro parts
    unfold TextCall.parts? at parts
    split at parts
    · rename_i own one
      cases parts
      cases one
      exact .id id
    · rename_i first second two
      cases two
      split_ifs at parts with three
      · cases parts
        exact .plural _ _ three
      · cases parts
        exact .context _ _ three
    · rename_i own middle last three
      cases parts
      cases three
      exact .all ..
    · cases parts

/-- The record of a call has its parts, its line and the path, and no comment. -/
theorem record?_eq_some_iff {call : TextCall} {path : String} {record : TextRecord} :
    call.record? path = some record ↔
      call.parts? = some (record.context, record.id, record.plural) ∧ record.id ≠ "" ∧ record.path = path ∧
        record.line = call.line ∧ record.comment = none := by
  obtain ⟨ownPath, line, id, context, plural, comment⟩ := record
  unfold TextCall.record?
  cases call.parts? with
  | none => simp
  | some parts =>
    obtain ⟨ownContext, ownId, ownPlural⟩ := parts
    by_cases empty : ownId = ""
    · simp only [empty, ↓reduceIte, reduceCtorEq, Option.some.injEq, Prod.mk.injEq, ne_eq, false_iff]
      rintro ⟨⟨_, rfl, _⟩, given, _⟩
      exact given rfl
    · simp only [empty, ↓reduceIte, Option.some.injEq, TextRecord.mk.injEq, Prod.mk.injEq, ne_eq]
      constructor
      · rintro ⟨rfl, rfl, rfl, rfl, rfl, rfl⟩
        exact ⟨⟨rfl, rfl, rfl⟩, empty, rfl, rfl, rfl⟩
      · rintro ⟨⟨rfl, rfl, rfl⟩, _, rfl, rfl, rfl⟩
        exact ⟨rfl, rfl, rfl, rfl, rfl, rfl⟩

private theorem Tree.textCall?_eq_some_iff {markers : Markers} {tree : Tree} {call : TextCall} :
    tree.textCall? markers = some call ↔ tree.Qualifies markers ∧ ∃ arguments, tree.HasArguments arguments ∧
      call = ⟨tree.line, arguments.filterMap Tree.literalArgument?, arguments.length⟩ := by
  unfold Tree.textCall?
  split_ifs with marked
  · simp only [Option.map_eq_some_iff, Tree.arguments?_eq_some_iff, Tree.isMarked_iff.mp marked, true_and,
      @eq_comm _ _ call]
  · simp [mt Tree.isMarked_iff.mpr marked]

/-- A record is found at a tree just where the tree announces it. -/
theorem Tree.record?_eq_some_iff {markers : Markers} {path : String} {tree : Tree} {record : TextRecord} :
    tree.record? markers path = some record ↔ Announces markers path tree record := by
  have found : tree.record? markers path = some record ↔
      ∃ call, tree.textCall? markers = some call ∧ call.record? path = some record := by
    unfold Tree.record?
    cases tree.textCall? markers <;> simp
  rw [found]
  constructor
  · rintro ⟨call, called, made⟩
    obtain ⟨qualifies, arguments, listed, rfl⟩ := Tree.textCall?_eq_some_iff.mp called
    obtain ⟨parts, given, path_eq, line_eq, comment_eq⟩ := CSharp.record?_eq_some_iff.mp made
    exact ⟨qualifies, ⟨arguments, _, listed, spells_iff.mpr rfl, roles_iff.mpr parts⟩, given, path_eq, line_eq,
      comment_eq⟩
  · rintro ⟨qualifies, ⟨arguments, literals, listed, spelled, roles⟩, given, path_eq, line_eq, comment_eq⟩
    obtain rfl := spells_iff.mp spelled
    exact ⟨_, Tree.textCall?_eq_some_iff.mpr ⟨qualifies, arguments, listed, rfl⟩,
      CSharp.record?_eq_some_iff.mpr ⟨roles_iff.mp roles, given, path_eq, line_eq, comment_eq⟩⟩

/-- The tree makes a record. -/
def Carries (markers : Markers) (path : String) (tree : Tree) : Prop :=
  ∃ record, Announces markers path tree record

instance (markers : Markers) (path : String) (tree : Tree) : Decidable (Carries markers path tree) :=
  decidable_of_iff ((tree.record? markers path).isSome = true) (by
    simp only [Option.isSome_iff_exists, Tree.record?_eq_some_iff, Carries])

/-- Looking for records among trees finds one for each tree that makes one, in order. -/
theorem forall₂_records (markers : Markers) (path : String) (stops : List Cursor) :
    List.Forall₂ (fun stop record => Announces markers path stop.tree record)
      (stops.filter fun stop => Carries markers path stop.tree)
      ((stops.map Cursor.tree).filterMap (Tree.record? markers path)) := by
  induction stops with
  | nil => exact .nil
  | cons stop stops ih =>
    rw [List.map_cons, List.filterMap_cons]
    cases found : stop.tree.record? markers path with
    | none =>
      have silent : ¬ Carries markers path stop.tree := by
        rintro ⟨record, announced⟩
        cases found.symm.trans (Tree.record?_eq_some_iff.mpr announced)
      rw [List.filter_cons_of_neg (by simpa using silent)]
      exact ih
    | some record =>
      have announced := Tree.record?_eq_some_iff.mp found
      rw [List.filter_cons_of_pos (by simpa using ⟨record, announced⟩)]
      exact .cons announced ih

/-- A walk through a tree comes to every tree inside it, once each and in the order of the source. The records of a
source that can be read are those of the trees at the stops of such a walk, one for each tree that makes one. -/
theorem extract?_announced (markers : Markers) (path : String) :
    (∀ tree, Cursor.IsWalk tree (Cursor.stops ⟨tree, []⟩)) ∧
    ∀ source, (extract? markers path source = none ↔ parse source = none) ∧
      ∀ trees, parse source = some trees → ∃ records, extract? markers path source = some records ∧
        List.Forall₂ (fun stop record => Announces markers path stop.tree record)
          ((Cursor.stops ⟨.node .sourceFile trees, []⟩).filter fun stop => Carries markers path stop.tree) records := by
  refine ⟨Cursor.isWalk_stops, ?_⟩
  intro source
  refine ⟨Option.map_eq_none_iff, ?_⟩
  intro trees accepted
  refine ⟨recordsOf markers path trees, ?_, forall₂_records markers path _⟩
  rw [extract?, accepted, Option.map_some]

/-- A creation in an argument of a call in a chain: the last call of the chain comes first, the creation last. -/
theorem extract?_announced_chain :
    ∃ trees, parse "T.GetText(\"a\", new @LocalizedText(\"b\", \"c\")).GetText(n, \"d\", \"e\");" = some trees ∧
      List.Forall₂ (fun stop record => Announces ⟨"GetText", "LocalizedText"⟩ "a.cs" stop.tree record)
        ((Cursor.stops ⟨.node .sourceFile trees, []⟩).filter fun stop =>
          Carries ⟨"GetText", "LocalizedText"⟩ "a.cs" stop.tree)
        [⟨"a.cs", 1, "d", none, some "e", none⟩, ⟨"a.cs", 1, "a", none, none, none⟩,
          ⟨"a.cs", 1, "c", some "b", none, none⟩] := by
  have accepted : (parse "T.GetText(\"a\", new @LocalizedText(\"b\", \"c\")).GetText(n, \"d\", \"e\");").isSome := by
    decide +kernel
  have extracted : extract? ⟨"GetText", "LocalizedText"⟩ "a.cs"
      "T.GetText(\"a\", new @LocalizedText(\"b\", \"c\")).GetText(n, \"d\", \"e\");" =
        some [⟨"a.cs", 1, "d", none, some "e", none⟩, ⟨"a.cs", 1, "a", none, none, none⟩,
          ⟨"a.cs", 1, "c", some "b", none, none⟩] := by
    decide +kernel
  obtain ⟨trees, parsed⟩ := Option.isSome_iff_exists.mp accepted
  obtain ⟨records, same, announced⟩ := ((extract?_announced ⟨"GetText", "LocalizedText"⟩ "a.cs").2 _).2 trees parsed
  cases extracted.symm.trans same
  exact ⟨trees, parsed, announced⟩

end TextHarvest.CSharp
