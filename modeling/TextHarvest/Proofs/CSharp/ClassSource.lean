import TextHarvest.Proofs.CSharp.Calls
import TextHarvest.Proofs.CSharp.Lexemes
import TextHarvest.Proofs.CSharp.LiteralForms
import TextHarvest.Settings

/-! # A class of quoted texts

The source of a class with one marked call for each of some texts is followed all the way to the PO file: it is cut into
tokens (`tokenize_classSource`), read as trees (`parse_classSource`), and searched for records (`recordsOf_classTrees`).
Each text comes back on its own line, whatever characters it has, so no text is ever taken for code
(`extract?_classSource`).
-/

namespace TextHarvest.CSharp

/-- A field whose value is the call of the marked member for a text. -/
def fieldLine (text : String) : String :=
  "string X = T.GetText(\"" ++ Po.escape text ++ "\");"

/-- The source of a class with one field for each text, each on a line of its own. -/
def classSource (texts : List String) : String :=
  "class A \x7b" ++ String.join (texts.map fun text => "\n" ++ fieldLine text) ++ "\n\x7d"

/-! ## Tokens -/

def fieldTokens : String × Nat → List Token
  | (text, line) =>
    [⟨.word, "string", line, false⟩, ⟨.word, "X", line, false⟩, ⟨.symbol, "=", line, false⟩, ⟨.word, "T", line, true⟩,
     ⟨.symbol, ".", line, true⟩, ⟨.word, "GetText", line, true⟩, ⟨.symbol, "(", line, true⟩,
     ⟨.string .regular, Po.quoted text, line, true⟩, ⟨.symbol, ")", line, true⟩, ⟨.symbol, ";", line, false⟩]

def classTokens (texts : List String) : List Token :=
  ⟨.word, "class", 1, false⟩ :: ⟨.word, "A", 1, false⟩ :: ⟨.symbol, "\x7b", 1, false⟩ ::
    ((texts.zipIdx 2).flatMap fieldTokens ++ [⟨.symbol, "\x7d", texts.length + 2, false⟩])

private theorem toList_enclosed {opening closing : String} {front back : List Char}
    (opens : opening.toList = front ++ ['"']) (closes : closing.toList = '"' :: back) (text : String) :
    (opening ++ Po.escape text ++ closing).toList = front ++ ((Po.quoted text).toList ++ back) := by
  simp [opens, closes, Po.quoted]

private theorem toList_fieldLine (text : String) : (fieldLine text).toList =
    ("string".toList ++ ' ' :: ("X".toList ++ ' ' :: '=' :: ' ' :: ("T".toList ++ '.' :: ("GetText".toList ++ ['(']))))
      ++ ((Po.quoted text).toList ++ [')', ';']) :=
  toList_enclosed (by decide) (by decide) text

private theorem cuts_field (text : String) (line : Nat) {rest : List Char} (apart : joinsNext rest = false) :
    Cuts line ('\n' :: ((fieldLine text).toList ++ rest)) (fieldTokens (text, line + 1)) (line + 1) rest := by
  have opens : joinsNext ((Po.quoted text).toList ++ ')' :: ';' :: rest) = true := by
    rw [Po.toList_quoted]
    rfl
  rw [toList_fieldLine]
  simp only [List.append_assoc, List.cons_append, List.nil_append]
  refine (cuts_blank (by decide) (by decide) line _).trans ?_
  refine (cuts_word "string" (by decide) (by decide) (by decide) _ _).cons ?_
  refine (cuts_blank (by decide) (by decide) _ _).trans ?_
  refine (cuts_word "X" (by decide) (by decide) (by decide) _ _).cons ?_
  refine (cuts_blank (by decide) (by decide) _ _).trans ?_
  refine (cuts_symbol '=' (by decide) rfl rfl _).cons ?_
  refine (cuts_blank (by decide) (by decide) _ _).trans ?_
  refine (cuts_word "T" (by decide) (by decide) (by decide) _ _).cons ?_
  refine (cuts_symbol '.' (by decide) rfl rfl _).cons ?_
  refine (cuts_word "GetText" (by decide) (by decide) (by decide) _ _).cons ?_
  refine (cuts_symbol '(' (by decide) rfl opens _).cons ?_
  refine (cuts_quoted text (by decide) (by decide) _ _).cons ?_
  refine (cuts_symbol ')' (by decide) rfl rfl _).cons ?_
  exact cuts_symbol ';' (by decide) rfl apart _

private theorem joinsNext_fields (texts : List String) (rest : List Char) :
    joinsNext ((texts.flatMap fun text => '\n' :: (fieldLine text).toList) ++ '\n' :: rest) = false := by
  cases texts <;> rfl

private theorem cuts_fields (texts : List String) (line : Nat) (rest : List Char) :
    Cuts line ((texts.flatMap fun text => '\n' :: (fieldLine text).toList) ++ '\n' :: rest)
      ((texts.zipIdx (line + 1)).flatMap fieldTokens) (texts.length + line) ('\n' :: rest) := by
  induction texts generalizing line with
  | nil =>
    rw [List.length_nil, Nat.zero_add]
    exact .refl line _
  | cons text texts ih =>
    have onward : (text :: texts).length + line = texts.length + (line + 1) := by
      rw [List.length_cons]
      omega
    rw [List.flatMap_cons, List.zipIdx_cons, List.flatMap_cons, onward, List.append_assoc]
    exact (cuts_field text line (joinsNext_fields texts rest)).trans (ih (line + 1))

private theorem toList_classSource (texts : List String) :
    (classSource texts).toList = "class".toList ++ ' ' :: ("A".toList ++
      ' ' :: '\x7b' :: ((texts.flatMap fun text => '\n' :: (fieldLine text).toList) ++ ['\n', '\x7d'])) := by
  simp [classSource, String.toList_join, List.flatMap_map]

/-- Nothing is left behind the class, also if a line feed ends its last line. -/
theorem tokensFrom_ending {ending : String} (ended : ending ∈ ["", "\n"]) (line : Nat) :
    joinsNext ending.toList = false ∧ tokensFrom [.code] line ending.toList = some [] := by
  have closed (line : Nat) : tokensFrom [.code] line [] = some [] := by
    rw [tokensFrom]
    rfl
  rcases List.mem_pair.mp ended with rfl | rfl
  · exact ⟨rfl, closed line⟩
  · refine ⟨rfl, ?_⟩
    have scanned : scan [.code] (['\n'] ++ []) = some ⟨1, none, [.code]⟩ := rfl
    have feed := cuts_lexeme (List.cons_ne_nil '\n' []) scanned line
    rw [Cuts, closed] at feed
    exact feed

theorem tokenize_classSource (texts : List String) {ending : String} (ended : ending ∈ ["", "\n"]) :
    tokenize (classSource texts ++ ending).toList = some (classTokens texts) := by
  obtain ⟨apart, closed⟩ := tokensFrom_ending ended (texts.length + 2)
  have cut : Cuts 1 (classSource texts ++ ending).toList (classTokens texts) (texts.length + 2) ending.toList := by
    rw [String.toList_append, toList_classSource]
    simp only [List.append_assoc, List.cons_append, List.nil_append]
    refine (cuts_word "class" (by decide) (by decide) (by decide) _ _).cons ?_
    refine (cuts_blank (by decide) (by decide) _ _).trans ?_
    refine (cuts_word "A" (by decide) (by decide) (by decide) _ _).cons ?_
    refine (cuts_blank (by decide) (by decide) _ _).trans ?_
    refine (cuts_symbol '\x7b' (by decide) rfl (joinsNext_fields ..) _).cons ?_
    refine (cuts_fields texts 1 _).trans ?_
    refine (cuts_blank (by decide) (by decide) _ _).trans ?_
    exact cuts_symbol '\x7d' (by decide) rfl apart _
  have start : tokenize (classSource texts ++ ending).toList =
      tokensFrom [.code] 1 (classSource texts ++ ending).toList := by
    rw [String.toList_append, toList_classSource]
    rfl
  rw [start, cut, closed]
  simp

/-! ## Trees -/

namespace Rule

variable {Name : Type} {limit : Nat} {call : Name → List Token → Option Reading} {rule next : Rule Name}
  {others : List (Rule Name)} {tokens between rest : List Token} {trees more : List Tree}

/-- Rules in a row read one after another. -/
theorem read_all_cons (front : rule.read limit call tokens = some (trees, between))
    (back : (all (next :: others)).read limit call between = some (more, rest)) :
    (all (rule :: next :: others)).read limit call tokens = some (trees ++ more, rest) := by
  simp only [all, read, front, back]

private theorem read_any_here (fits : rule.read limit call tokens = some (trees, rest)) :
    (any (rule :: next :: others)).read limit call tokens = some (trees, rest) := by
  simp only [any, read, fits]

private theorem read_any_later (refused : rule.read limit call tokens = none) :
    (any (rule :: next :: others)).read limit call tokens = (any (next :: others)).read limit call tokens := by
  simp only [any, read, refused]

/-- Items that are read one after another, up to where no more can be read. -/
theorem repeatRead_flatMap {α : Type} {step : List Token → Option Reading} {items : List α}
    {itemTokens : α → List Token} {itemTrees : α → List Tree} (filled : ∀ item ∈ items, itemTrees item ≠ [])
    (reads : ∀ item ∈ items, ∀ onward, step (itemTokens item ++ onward) = some (itemTrees item, onward))
    (stops : step rest = none) {limit : Nat} (enough : items.length ≤ limit) :
    repeatRead step limit (items.flatMap itemTokens ++ rest) = (items.flatMap itemTrees, rest) := by
  induction items generalizing limit with
  | nil =>
    cases limit with
    | zero => rfl
    | succ limit => simp [repeatRead, stops]
  | cons item items ih =>
    obtain ⟨limit, rfl⟩ : ∃ less, limit = less + 1 := Nat.exists_eq_add_one_of_ne_zero (by simp at enough; omega)
    obtain ⟨tree, trees, made⟩ := List.exists_cons_of_ne_nil (filled item List.mem_cons_self)
    have onward := ih (fun other present => filled other (List.mem_cons_of_mem _ present))
      (fun other present => reads other (List.mem_cons_of_mem _ present)) (Nat.le_of_succ_le_succ enough)
    rw [List.flatMap_cons, List.append_assoc, repeatRead, reads item List.mem_cons_self, made]
    simp only [onward, List.flatMap_cons, made]

/-- One item is read if no other can be read behind it. -/
theorem repeatRead_once {step : List Token → Option Reading} (filled : trees ≠ [])
    (reads : step tokens = some (trees, rest)) (stops : step rest = none) (limit : Nat) :
    repeatRead step (limit + 2) tokens = (trees, rest) := by
  obtain ⟨tree, others, rfl⟩ := List.exists_cons_of_ne_nil filled
  simp only [repeatRead, reads, stops, List.append_nil]

/-- A rule that reads each of some items reads them in a row, up to where it does not fit. -/
theorem read_many {α : Type} {items : List α} {itemTokens : α → List Token} {itemTrees : α → List Tree}
    (filled : ∀ item ∈ items, itemTrees item ≠ [])
    (reads : ∀ item ∈ items, ∀ onward, rule.read limit call (itemTokens item ++ onward) = some (itemTrees item, onward))
    (stops : rule.read limit call rest = none) (enough : items.length ≤ limit) :
    (many rule).read limit call (items.flatMap itemTokens ++ rest) = some (items.flatMap itemTrees, rest) :=
  congrArg some (repeatRead_flatMap filled reads stops enough)

end Rule

def fieldCall : String × Nat → Tree
  | (text, line) =>
    .node .invocation
      [.node .memberAccess
        [.leaf ⟨.word, "T", line, true⟩, .leaf ⟨.symbol, ".", line, true⟩, .leaf ⟨.word, "GetText", line, true⟩],
       .node .argumentList
        [.leaf ⟨.symbol, "(", line, true⟩, .node .argument [.leaf ⟨.string .regular, Po.quoted text, line, true⟩],
         .leaf ⟨.symbol, ")", line, true⟩]]

def fieldTrees (field : String × Nat) : List Tree :=
  [.leaf ⟨.word, "string", field.2, false⟩, .leaf ⟨.word, "X", field.2, false⟩, .leaf ⟨.symbol, "=", field.2, false⟩,
   fieldCall field, .leaf ⟨.symbol, ";", field.2, false⟩]

def classTrees (texts : List String) : List Tree :=
  .leaf ⟨.word, "class", 1, false⟩ :: .leaf ⟨.word, "A", 1, false⟩ :: .leaf ⟨.symbol, "\x7b", 1, false⟩ ::
    ((texts.zipIdx 2).flatMap fieldTrees ++ [.leaf ⟨.symbol, "\x7d", texts.length + 2, false⟩])

/-- A field is read as a member. -/
theorem read_member (limit depth : Nat) (field : String × Nat) (rest : List Token) :
    (Rule.call .member).read (limit + 3) (grammar.read (limit + 3) (depth + 20)) (fieldTokens field ++ rest) =
      some (fieldTrees field, rest) := by
  exact rfl

/-- The fields of a class are read one after another, up to the closing brace. -/
theorem read_memberBlock {limit depth : Nat} {fields : List (String × Nat)} (enough : fields.length ≤ limit + 3)
    (line : Nat) (rest : List Token) :
    (Rule.call .memberBlock).read (limit + 3) (grammar.read (limit + 3) (depth + 21))
        (⟨.symbol, "\x7b", 1, false⟩ :: (fields.flatMap fieldTokens ++ ⟨.symbol, "\x7d", line, false⟩ :: rest)) =
      some (.leaf ⟨.symbol, "\x7b", 1, false⟩ :: (fields.flatMap fieldTrees ++ [.leaf ⟨.symbol, "\x7d", line, false⟩]),
        rest) := by
  have stops : (Rule.call .member).read (limit + 3) (grammar.read (limit + 3) (depth + 20))
      (⟨.symbol, "\x7d", line, false⟩ :: rest) = none := rfl
  have filled : ∀ field ∈ fields, fieldTrees field ≠ [] := fun field _ => List.cons_ne_nil _ _
  have members := Rule.read_many filled (fun field _ => read_member limit depth field) stops enough
  rw [Rule.read, Grammar.read, grammar]
  exact (Rule.read_all_cons rfl (Rule.read_all_cons members rfl)).trans rfl

/-- The class is read as one item of the source, and nothing is left behind it. -/
theorem read_class {texts : List String} {limit depth : Nat} (enough : texts.length + 3 ≤ limit) (deep : 23 ≤ depth) :
    (Rule.call .topLevelItem).read limit (grammar.read limit depth) (classTokens texts) =
      some (classTrees texts, []) := by
  obtain ⟨depth, rfl⟩ := Nat.exists_eq_add_of_le' deep
  obtain ⟨limit, rfl⟩ := Nat.exists_eq_add_of_le' (Nat.le_trans (Nat.le_add_left 3 _) enough)
  have fields : (texts.zipIdx 2).length ≤ limit + 3 := by
    rw [List.length_zipIdx]
    omega
  have block := @read_memberBlock limit depth _ fields (texts.length + 2) []
  have declaration : (Rule.call .typeDeclaration).read (limit + 3) (grammar.read (limit + 3) (depth + 22))
      (classTokens texts) = some (classTrees texts, []) := by
    rw [Rule.read, Grammar.read, grammar]
    refine Rule.read_any_here ?_
    refine (Rule.read_all_cons rfl (Rule.read_all_cons rfl (Rule.read_all_cons rfl (Rule.read_any_here
      (Rule.read_all_cons block rfl))))).trans ?_
    rw [List.append_nil]
    rfl
  rw [Rule.read, Grammar.read, grammar]
  iterate 5 rw [Rule.read_any_later rfl]
  exact Rule.read_any_here ((Rule.read_all_cons rfl (Rule.read_all_cons rfl declaration)).trans rfl)

private theorem length_classTokens (texts : List String) : (classTokens texts).length = 10 * texts.length + 4 := by
  have tenEach : ∀ field, (fieldTokens field).length = 10 := fun _ => rfl
  simp only [classTokens, List.length_cons, List.length_append, List.length_flatMap, tenEach, List.map_const',
    List.length_zipIdx, List.sum_replicate_nat, List.length_nil]
  omega

private theorem parseTokens_classTokens (texts : List String) :
    parseTokens (classTokens texts) = some (classTrees texts) := by
  obtain ⟨limit, count⟩ : ∃ limit, (classTokens texts).length + 1 = limit + 2 :=
    ⟨10 * texts.length + 3, by rw [length_classTokens]⟩
  obtain ⟨depth, deep⟩ : ∃ depth, constructCount * (limit + 2) = depth + 23 + 1 :=
    ⟨48 * limit + 72, by rw [constructCount, Nat.mul_add]⟩
  have long : texts.length + 3 ≤ limit + 2 := by
    rw [← count, length_classTokens]
    omega
  have item := read_class long (Nat.le_add_left 23 depth)
  have stops : (Rule.call .topLevelItem).read (limit + 2) (grammar.read (limit + 2) (depth + 23)) [] = none := rfl
  have filled : classTrees texts ≠ [] := List.cons_ne_nil _ _
  have whole : grammar.read (limit + 2) (depth + 23 + 1) .sourceFile (classTokens texts) =
      some (classTrees texts, []) := by
    rw [Grammar.read, grammar, Rule.read, Rule.repeatRead_once filled item stops]
  simp only [parseTokens, count, deep, whole]

theorem parse_classSource (texts : List String) {ending : String} (ended : ending ∈ ["", "\n"]) :
    parse (classSource texts ++ ending) = some (classTrees texts) := by
  have noMark : Text.dropByteOrderMark (classSource texts ++ ending).toList = (classSource texts ++ ending).toList := by
    rw [String.toList_append, toList_classSource]
    rfl
  simp only [parse, noMark, tokenize_classSource texts ended, parseTokens_classTokens]

/-! ## Records -/

def fieldRecord (path : String) : String × Nat → TextRecord
  | (text, line) => { path, line, id := text }

private theorem Tree.preorderAll_append (first second : List Tree) :
    preorderAll (first ++ second) = preorderAll first ++ preorderAll second := by
  induction first with
  | nil => rfl
  | cons tree first ih => simp [preorderAll, ih]

private theorem Tree.preorderAll_flatMap {α : Type} (items : List α) (trees : α → List Tree) :
    preorderAll (items.flatMap trees) = items.flatMap fun item => preorderAll (trees item) := by
  induction items with
  | nil => rfl
  | cons item items ih => simp [preorderAll_append, ih]

private theorem value?_quoted (text : String) (line : Nat) (joined : Bool) :
    Token.value? ⟨.string .regular, Po.quoted text, line, joined⟩ = some text := by
  have value : Literal.regularValue? (Po.quoted text).toList = some text.toList := by
    rw [Po.toList_quoted, Literal.regularValue?_enclosed, Literal.unescape_escapeChars]
  simp only [Token.value?, Literal.Form.value?, value, Option.map_some, String.ofList_toList]

private theorem Tree.record?_leaf (markers : Markers) (path : String) (token : Token) :
    (leaf token).record? markers path = none := rfl

/-- A node that is neither a call nor a creation makes no record. -/
theorem Tree.record?_node {kind : NodeKind} (noCall : kind ≠ .invocation) (noCreation : kind ≠ .creation)
    (markers : Markers) (path : String) (children : List Tree) : (node kind children).record? markers path = none := by
  have unmarked : (node kind children).isMarked markers = false := by
    unfold isMarked
    split <;> simp_all
  simp [record?, textCall?, unmarked]

private theorem record?_fieldCall {text : String} (given : text ≠ "") (path : String) (line : Nat) :
    (fieldCall (text, line)).record? ({} : Settings).markers path = some (fieldRecord path (text, line)) := by
  let argument : Tree := .node .argument [.leaf ⟨.string .regular, Po.quoted text, line, true⟩]
  have value : argument.IsLiteral text := ⟨[], _, rfl, value?_quoted text line true⟩
  refine Tree.record?_eq_some_iff.mpr
    ⟨?_, ⟨[argument], [text], ?_, .literal value .nil, .id text⟩, given, rfl, rfl, rfl⟩
  · exact @Tree.Qualifies.call _ [_, _] _ _ (.plain ⟨⟨.word, "GetText", line, true⟩, rfl, rfl, rfl⟩)
  · exact ⟨[_], _, [], rfl, by simp [Tree.kind?], rfl⟩

private theorem records_field {text : String} (given : text ≠ "") (path : String) (line : Nat) :
    (Tree.preorderAll (fieldTrees (text, line))).filterMap (Tree.record? ({} : Settings).markers path) =
      [fieldRecord path (text, line)] := by
  have call := record?_fieldCall given path line
  rw [fieldCall] at call
  simp only [fieldTrees, fieldCall, Tree.preorderAll, Tree.preorder, List.append_nil, List.cons_append,
    List.nil_append, List.filterMap_cons, List.filterMap_nil, Tree.record?_leaf, call]
  simp [Tree.record?_node]

/-- The records of the class are those of its fields. -/
theorem recordsOf_classTrees {texts : List String} (given : ∀ text ∈ texts, text ≠ "") (path : String) :
    recordsOf ({} : Settings).markers path (classTrees texts) = (texts.zipIdx 2).map (fieldRecord path) := by
  have fields : ∀ field ∈ texts.zipIdx 2,
      (Tree.preorderAll (fieldTrees field)).filterMap (Tree.record? ({} : Settings).markers path) =
        [fieldRecord path field] := by
    rintro ⟨text, line⟩ present
    exact records_field (given text (List.fst_mem_of_mem_zipIdx present)) path line
  rw [recordsOf, Cursor.visits_eq_preorder]
  simp only [classTrees, Tree.preorder, Tree.preorderAll, Tree.preorderAll_append, Tree.preorderAll_flatMap,
    List.filterMap_cons, List.filterMap_append, List.filterMap_nil, List.filterMap_flatMap, Tree.record?_leaf,
    List.cons_append, List.nil_append, List.append_nil]
  rw [Tree.record?_node (by decide) (by decide), List.flatMap_congr fields]
  exact List.map_eq_flatMap.symm

/-- Records without context, plural and comment make stanzas of three lines, one for each id. -/
theorem render_plain (header : Po.Header) (root : String) {records : List TextRecord}
    (plain : ∀ record ∈ records, record.context = none ∧ record.plural = none ∧ record.comment = none) :
    Po.render header (({ root } : Catalog).extend records) = String.join ((header.lines ++
      (firstRecords records).flatMap fun record => ["", "#: " ++ Catalog.referenceOf root record,
        "msgid \"" ++ Po.escape record.id ++ "\"", "msgstr \"\""]).map (· ++ "\n")) := by
  have entries : (({ root } : Catalog).extend records).entries = (firstRecords records).map (Catalog.entryOf root) :=
    congrArg Catalog.entries (Catalog.extend_ofStream root [] records)
  have stanzas : ∀ record ∈ firstRecords records, "" :: Po.stanza (Catalog.entryOf root record) =
      ["", "#: " ++ Catalog.referenceOf root record, "msgid \"" ++ Po.escape record.id ++ "\"", "msgstr \"\""] := by
    intro record present
    obtain ⟨context, plural, comment⟩ := plain record ((firstRecords_sublist records).subset present)
    have opening : "msgid " ++ "\"" = "msgid \"" := by decide
    simp only [Po.stanza, Catalog.entryOf, context, plural, comment, Po.quoted, ← String.append_assoc, opening,
      List.nil_append, List.append_nil, List.cons_append]
  rw [Po.render, Po.lines, entries, List.flatMap_map, List.flatMap_congr stanzas]

/-- The source with one call for each text is accepted and has one record for each of them, on its own line. In the PO
file of these records each text has one stanza, and its id is written as it was in the source. -/
theorem extract?_classSource (texts : List String) (given : ∀ text ∈ texts, text ≠ "" ∧ Char.ofNat 0 ∉ text.toList)
    (ending : String) (ended : ending ∈ ["", "\n"]) (path root : String) :
    ∃ records, extract? ({} : Settings).markers path (classSource texts ++ ending) = some records ∧
      records = (texts.zipIdx 2).map (fun (text, line) => ⟨path, line, text, none, none, none⟩) ∧
      ((firstRecords records).map (·.id)).Nodup ∧ (∀ text, text ∈ (firstRecords records).map (·.id) ↔ text ∈ texts) ∧
      Po.render ({} : Settings).header (({ root } : Catalog).extend records) =
        String.join ((({} : Settings).header.lines ++ (firstRecords records).flatMap fun record =>
          ["", "#: " ++ Catalog.referenceOf root record, "msgid \"" ++ Po.escape record.id ++ "\"", "msgstr \"\""]).map
            (· ++ "\n")) := by
  have nonempty : ∀ text ∈ texts, text ≠ "" := fun text present => (given text present).1
  refine ⟨(texts.zipIdx 2).map (fieldRecord path), ?_, rfl, nodup_ids_firstRecords _, ?_, render_plain _ root ?_⟩
  · rw [extract?, parse_classSource texts ended, Option.map_some, recordsOf_classTrees nonempty]
  · intro text
    rw [mem_ids_firstRecords, List.map_map]
    have ids : (texts.zipIdx 2).map ((·.id) ∘ fieldRecord path) = texts := List.zipIdx_map_fst 2 texts
    rw [ids]
  · rintro record present
    obtain ⟨field, _, rfl⟩ := List.mem_map.mp present
    exact ⟨rfl, rfl, rfl⟩

/-- Texts that look like the end of a call, a directive, an escape and a comment, one of them twice. -/
theorem extract?_classSource_lookalikes :
    extract? ({} : Settings).markers "/s/a.cs"
        (classSource ["\"); // \x7d", "\n#if x\n", "\\u0041", "\"); // \x7d"] ++ "\n") =
      some [⟨"/s/a.cs", 2, "\"); // \x7d", none, none, none⟩, ⟨"/s/a.cs", 3, "\n#if x\n", none, none, none⟩,
        ⟨"/s/a.cs", 4, "\\u0041", none, none, none⟩, ⟨"/s/a.cs", 5, "\"); // \x7d", none, none, none⟩] := by
  obtain ⟨records, extracted, same, _⟩ := extract?_classSource ["\"); // \x7d", "\n#if x\n", "\\u0041", "\"); // \x7d"]
    (by simp) "\n" (by simp) "/s/a.cs" "/s"
  rw [extracted, same]
  rfl

end TextHarvest.CSharp
