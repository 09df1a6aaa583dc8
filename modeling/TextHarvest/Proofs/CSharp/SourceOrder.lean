import TextHarvest.Proofs.CSharp.Calls
import TextHarvest.Proofs.Text.Lines

/-! # Records come in the order of the source

The tokens of a source are cut off its front one by one, so their lines ascend (`ascend_tokenize`). Whatever the rules
of a grammar are, the trees that are read hold the tokens that were taken, each once and in their order, and the rest is
left as it was (`Rule.keeps_read`, `Grammar.keeps_read`). A walk through such trees comes to places further and further
down (`Tree.pairwise_preorder`), and with it the records of a source (`ascend_extract?`).
-/

namespace TextHarvest.CSharp

/-! ## Tokens -/

/-- A text that can be cut begins with a lexeme. It makes a token on the line where it starts, or nothing, and the rest
is cut from the line where it ends. -/
theorem exists_of_tokensFrom {modes : List Mode} {line : Nat} {c : Char} {text : List Char} {tokens : List Token}
    (cut : tokensFrom modes line (c :: text) = some tokens) :
    ∃ (onward : List Mode) (lexeme tail : List Char) (later : List Token), c :: text = lexeme ++ tail ∧ lexeme ≠ [] ∧
      tokensFrom onward (line + lexeme.count '\n') tail = some later ∧
      (tokens = later ∨ ∃ token : Token, token.line = line ∧ tokens = token :: later) := by
  rw [tokensFrom] at cut
  split at cut
  · cases cut
  · cases cut
  · next length kind onward scanned =>
    have whole : c :: text = (c :: text.take length) ++ text.drop length := by simp
    dsimp only at cut
    split at cut
    · cases cut
    · next later rest =>
      refine ⟨onward, _, _, later, whole, List.cons_ne_nil _ _, rest, ?_⟩
      cases kind with
      | none =>
        cases cut
        exact .inl rfl
      | some kind =>
        cases cut
        exact .inr ⟨_, rfl, rfl⟩

/-- The lines of tokens ascend from the line of the text on, by no more lines than the text has. -/
theorem ascend_tokensFrom {modes : List Mode} {line : Nat} {text : List Char} {tokens : List Token}
    (cut : tokensFrom modes line text = some tokens) :
    Text.Ascend line (line + text.count '\n') (tokens.map Token.line) := by
  cases text with
  | nil =>
    rw [tokensFrom] at cut
    split_ifs at cut
    cases cut
    exact .nil _ _
  | cons c text =>
    obtain ⟨onward, lexeme, tail, later, whole, given, rest, made⟩ := exists_of_tokensFrom cut
    -- A lexeme is never empty, so the induction on the length of the text goes through.
    have shorter : tail.length < (c :: text).length := by
      rw [whole, List.length_append]
      have := List.length_pos_of_ne_nil given
      omega
    have feeds : (c :: text).count '\n' = lexeme.count '\n' + tail.count '\n' := by rw [whole, List.count_append]
    have behind : Text.Ascend line (line + (c :: text).count '\n') (later.map Token.line) :=
      (ascend_tokensFrom rest).mono (by omega) (by omega)
    rcases made with rfl | ⟨token, rfl, rfl⟩
    · exact behind
    · exact behind.cons (by omega)
termination_by text.length

theorem ascend_tokenize {text : List Char} {tokens : List Token} (cut : tokenize text = some tokens) :
    Text.Ascend 1 (1 + text.count '\n') (tokens.map Token.line) := by
  have fewer := (List.drop_sublist (interpreterLine text) text).count_le '\n'
  exact (ascend_tokensFrom cut).mono (Nat.le_refl 1) (by omega)

/-! ## Rules -/

namespace Tree

private theorem tokensAll_append (first second : List Tree) :
    tokensAll (first ++ second) = tokensAll first ++ tokensAll second := by
  induction first with
  | nil => rfl
  | cons tree first ih => rw [List.cons_append, tokensAll, tokensAll, ih, List.append_assoc]

private theorem tokensAll_singleton (tree : Tree) : tokensAll [tree] = tree.tokens := by
  rw [tokensAll, tokensAll, List.append_nil]

end Tree

/-- A reader takes tokens off the front of a row: its trees hold them in their order, and behind them the row is as it
was. -/
def KeepsTokens (reader : List Token → Option Reading) : Prop :=
  ∀ tokens trees rest, reader tokens = some (trees, rest) → Tree.tokensAll trees ++ rest = tokens

namespace Rule

variable {Name : Type} {step : List Token → Option Reading}

private theorem tokensAll_repeatRead (keeps : KeepsTokens step) (limit : Nat) (tokens : List Token) :
    Tree.tokensAll (repeatRead step limit tokens).1 ++ (repeatRead step limit tokens).2 = tokens := by
  induction limit generalizing tokens with
  | zero => rfl
  | succ limit ih =>
    rw [repeatRead]
    split
    · rfl
    · rfl
    · next tree trees rest read =>
      rw [Tree.tokensAll_append, List.append_assoc, ih, keeps _ _ _ read]

/-- The trees in front become parts of a node, or stay beside it. -/
theorem tokensAll_attach (first trees : List Tree) :
    Tree.tokensAll (attach first trees) = Tree.tokensAll first ++ Tree.tokensAll trees := by
  unfold attach
  split
  · simp only [Tree.tokensAll_singleton, Tree.tokens, Tree.tokensAll_append]
  · exact Tree.tokensAll_append _ _

private theorem tokensAll_extendRead (keeps : KeepsTokens step) (limit : Nat) (first : List Tree)
    (tokens : List Token) :
    Tree.tokensAll (extendRead step limit first tokens).1 ++ (extendRead step limit first tokens).2 =
      Tree.tokensAll first ++ tokens := by
  induction limit generalizing first tokens with
  | zero => rfl
  | succ limit ih =>
    rw [extendRead]
    split
    · rfl
    · rfl
    · next tree trees rest read =>
      rw [ih, tokensAll_attach, List.append_assoc, keeps _ _ _ read]

/-- A rule keeps the tokens, if the constructs that it refers to do. -/
theorem keeps_read {limit : Nat} {call : Name → List Token → Option Reading}
    (calls : ∀ name, KeepsTokens (call name)) (rule : Rule Name) : KeepsTokens (rule.read limit call) := by
  induction rule with
  | empty =>
    intro tokens trees rest read
    cases read
    rfl
  | never =>
    intro tokens trees rest read
    cases read
  | token accepts =>
    intro tokens trees rest read
    cases tokens with
    | nil => cases read
    | cons first tokens =>
      rw [Rule.read] at read
      split_ifs at read
      cases read
      rfl
  | call name => exact calls name
  | seq first second ihFirst ihSecond =>
    intro tokens trees rest read
    rw [Rule.read] at read
    split at read
    · cases read
    · next front middle readFirst =>
      split at read
      · cases read
      · next back last readSecond =>
        cases read
        rw [Tree.tokensAll_append, List.append_assoc, ihSecond _ _ _ readSecond, ihFirst _ _ _ readFirst]
  | alt first second ihFirst ihSecond =>
    intro tokens trees rest read
    rw [Rule.read] at read
    split at read
    · next readFirst =>
      cases read
      exact ihFirst _ _ _ readFirst
    · exact ihSecond _ _ _ read
  | many item ih =>
    intro tokens trees rest read
    have same : repeatRead (item.read limit call) limit tokens = (trees, rest) := Option.some.inj read
    have kept := tokensAll_repeatRead ih limit tokens
    rwa [same] at kept
  -- Looking ahead gives no tree, whatever the rule reads there.
  | ahead rule _ =>
    intro tokens trees rest read
    rw [Rule.read] at read
    split_ifs at read
    cases read
    rfl
  | notAhead rule _ =>
    intro tokens trees rest read
    rw [Rule.read] at read
    split_ifs at read
    cases read
    rfl
  | node kind parts ih =>
    intro tokens trees rest read
    rw [Rule.read] at read
    split at read
    · cases read
    · next inside last readParts =>
      cases read
      rw [Tree.tokensAll_singleton, Tree.tokens, ih _ _ _ readParts]
  | chain head extension ihHead ihExtension =>
    intro tokens trees rest read
    rw [Rule.read] at read
    split at read
    · cases read
    · next first last readHead =>
      have same : extendRead (extension.read limit call) limit first last = (trees, rest) := Option.some.inj read
      have kept := tokensAll_extendRead ihExtension limit first last
      rwa [same, ihHead _ _ _ readHead] at kept
  | only accepts rule ih =>
    intro tokens trees rest read
    rw [Rule.read] at read
    split at read
    · next tree last readRule =>
      split_ifs at read
      cases read
      exact ih _ _ _ readRule
    · cases read

end Rule

/-- Every construct of a grammar keeps the tokens, at any depth. -/
theorem Grammar.keeps_read {Name : Type} (grammar : Grammar Name) (limit depth : Nat) (name : Name) :
    KeepsTokens (grammar.read limit depth name) := by
  induction depth generalizing name with
  | zero =>
    intro tokens trees rest read
    cases read
  | succ depth ih => exact Rule.keeps_read ih (grammar name)

/-- The trees of a source hold all its tokens, in order. -/
theorem tokensAll_of_parse {source : String} {trees : List Tree} (accepted : parse source = some trees) :
    tokenize (Text.dropByteOrderMark source.toList) = some (Tree.tokensAll trees) := by
  unfold parse at accepted
  split at accepted
  · cases accepted
  · next tokens cut =>
    rw [parseTokens] at accepted
    split at accepted
    · next found read =>
      cases accepted
      have kept := Grammar.keeps_read grammar _ _ _ _ _ _ read
      rw [List.append_nil] at kept
      rw [cut, kept]
    · cases accepted

/-! ## Trees -/

namespace Tree

mutual

private theorem firstToken?_eq : ∀ tree : Tree, tree.firstToken? = tree.tokens.head?
  | leaf _ => rfl
  | node _ children => firstTokenOf?_eq children

private theorem firstTokenOf?_eq : ∀ trees : List Tree, firstTokenOf? trees = (tokensAll trees).head?
  | [] => rfl
  | tree :: rest => by
    rw [firstTokenOf?, firstToken?_eq tree, firstTokenOf?_eq rest, tokensAll, List.head?_append]
    cases tree.tokens.head? <;> rfl

end

mutual

/-- The tokens of a tree inside another one are among its tokens. -/
theorem tokens_sublist_of_mem_preorder {part : Tree} :
    ∀ tree : Tree, part ∈ tree.preorder → part.tokens.Sublist tree.tokens
  | leaf token, member => by
    obtain rfl := List.mem_singleton.mp member
    exact .refl _
  | node kind children, member => by
    rcases List.mem_cons.mp member with rfl | inside
    · exact .refl _
    · exact tokens_sublist_of_mem_preorderAll children inside

private theorem tokens_sublist_of_mem_preorderAll {part : Tree} :
    ∀ trees : List Tree, part ∈ preorderAll trees → part.tokens.Sublist (tokensAll trees)
  | [], member => absurd member List.not_mem_nil
  | tree :: rest, member => by
    rcases List.mem_append.mp member with here | later
    · exact (tokens_sublist_of_mem_preorder tree here).trans (List.sublist_append_left _ _)
    · exact (tokens_sublist_of_mem_preorderAll rest later).trans (List.sublist_append_right _ _)

end

/-- One tree starts on no later line than another, where both have tokens. -/
def NotBehind (tree other : Tree) : Prop :=
  ∀ token ∈ tree.tokens.head?, ∀ next ∈ other.tokens.head?, token.line ≤ next.line

mutual

/-- Where the lines of the tokens ascend, so do those on which the trees start: a node starts with its first part, and
the parts follow one another. -/
theorem pairwise_preorder : ∀ tree : Tree, tree.tokens.Pairwise (·.line ≤ ·.line) → tree.preorder.Pairwise NotBehind
  | leaf token, _ => List.pairwise_singleton _ _
  | node kind children, ordered => by
    refine .cons ?_ (pairwise_preorderAll children ordered)
    -- The first token of the node is the first of all tokens below it, and a part starts with one of these.
    intro part inside token first next inner
    have member := (tokens_sublist_of_mem_preorderAll children inside).subset (List.mem_of_mem_head? inner)
    rw [tokens] at first ordered
    obtain ⟨rest, whole⟩ := List.head?_eq_some_iff.mp first
    rw [whole] at ordered member
    rcases List.mem_cons.mp member with rfl | later
    · exact Nat.le_refl _
    · exact (List.pairwise_cons.mp ordered).1 next later

private theorem pairwise_preorderAll : ∀ trees : List Tree, (tokensAll trees).Pairwise (·.line ≤ ·.line) →
    (preorderAll trees).Pairwise NotBehind
  | [], _ => .nil
  | tree :: rest, ordered => by
    obtain ⟨front, back, across⟩ := List.pairwise_append.mp ordered
    refine List.pairwise_append.mpr ⟨pairwise_preorder tree front, pairwise_preorderAll rest back, ?_⟩
    intro part here other later token first next inner
    exact across token ((tokens_sublist_of_mem_preorder tree here).subset (List.mem_of_mem_head? first)) next
      ((tokens_sublist_of_mem_preorderAll rest later).subset (List.mem_of_mem_head? inner))

end

private theorem IsIdentifier.exists_mem_tokens {tree : Tree} {text : String} (named : tree.IsIdentifier text) :
    ∃ token, token ∈ tree.tokens := by
  obtain ⟨token, rfl, _⟩ := named
  exact ⟨token, List.mem_singleton_self token⟩

private theorem IsMember.exists_mem_tokens {tree : Tree} {name : String} (named : tree.IsMember name) :
    ∃ token, token ∈ tree.tokens := by
  cases named with
  | plain named => exact named.exists_mem_tokens
  | generic named =>
    obtain ⟨token, member⟩ := named.exists_mem_tokens
    exact ⟨token, List.mem_append_left _ member⟩

/-- A tree that can carry a text has a token: the name that marks it. -/
theorem Qualifies.exists_mem_tokens {markers : Markers} {tree : Tree} (qualifies : tree.Qualifies markers) :
    ∃ token, token ∈ tree.tokens := by
  cases qualifies with
  | call named =>
    obtain ⟨token, member⟩ := named.exists_mem_tokens
    refine ⟨token, ?_⟩
    simp [tokens, tokensAll, tokensAll_append, member]
  | creation named _ =>
    obtain ⟨token, member⟩ := named.exists_mem_tokens
    refine ⟨token, ?_⟩
    simp [tokens, tokensAll, member]

end Tree

/-- The line of a record is that of the first token of its tree. -/
theorem Announces.exists_line {markers : Markers} {path : String} {tree : Tree} {record : TextRecord}
    (announces : Announces markers path tree record) :
    ∃ token, token ∈ tree.tokens.head? ∧ record.line = token.line := by
  obtain ⟨token, member⟩ := announces.qualifies.exists_mem_tokens
  obtain ⟨first, rest, whole⟩ := List.exists_cons_of_ne_nil (List.ne_nil_of_mem member)
  refine ⟨first, by rw [whole]; rfl, ?_⟩
  rw [announces.line_eq, Tree.line, Tree.firstToken?_eq, whole]
  rfl

/-- The lines of the records of a source ascend, and are lines of the source. -/
theorem ascend_extract? {markers : Markers} {path source : String} {records : List TextRecord}
    (extracted : extract? markers path source = some records) :
    Text.Ascend 1 (1 + source.toList.count '\n') (records.map TextRecord.line) := by
  obtain ⟨trees, accepted, rfl⟩ := Option.map_eq_some_iff.mp extracted
  have ascend := ascend_tokenize (tokensAll_of_parse accepted)
  rw [Text.count_dropByteOrderMark] at ascend
  rw [recordsOf, Cursor.visits_eq_preorder]
  refine ascend.of_subset ?_ ?_
  · rw [List.pairwise_map, List.pairwise_filterMap]
    have preorder := Tree.pairwise_preorder (.node .sourceFile trees) (List.pairwise_map.mp ascend.ordered)
    refine preorder.imp ?_
    intro tree other notBehind record made next nextMade
    obtain ⟨token, first, line⟩ := (Tree.record?_eq_some_iff.mp made).exists_line
    obtain ⟨nextToken, nextFirst, nextLine⟩ := (Tree.record?_eq_some_iff.mp nextMade).exists_line
    rw [line, nextLine]
    exact notBehind token first nextToken nextFirst
  · intro line member
    obtain ⟨record, recorded, rfl⟩ := List.mem_map.mp member
    obtain ⟨tree, inside, made⟩ := List.mem_filterMap.mp recorded
    obtain ⟨token, first, line⟩ := (Tree.record?_eq_some_iff.mp made).exists_line
    rw [line]
    exact List.mem_map_of_mem
      ((Tree.tokens_sublist_of_mem_preorder _ inside).subset (List.mem_of_mem_head? first))

end TextHarvest.CSharp
