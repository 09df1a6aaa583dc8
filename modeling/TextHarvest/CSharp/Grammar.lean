import TextHarvest.CSharp.Rule

/-! # The grammar of C# source

`grammar` gives a rule for every `Construct`, up to the language's version 12. It is a grammar of shapes and knows
no meanings, so it is more generous than a compiler: contextual keywords are identifiers wherever they can be, any
modifier may stand before any declaration, and names need not be declared. In the other direction, a collection
expression may not be empty.

Operators are not ranked: `a + b * c` is read as `a`, extended by `+ b`, extended by `* c`. The order of the parts,
which is all that is asked of such an expression, is that of the source. What follows a primary expression (`.name`,
`(…)`, `[…]`) binds to it, so calls in a chain nest as they are evaluated.
-/

namespace TextHarvest.CSharp

open Rule

/-- The constructs of C# source that rules refer to. -/
inductive Construct
  | sourceFile
  | topLevelItem
  | statement
  | block
  | member
  | memberBlock
  | usingDirective
  | namespaceDeclaration
  | typeDeclaration
  | attributeList
  | attribute
  | modifier
  | parameterList
  | parameter
  | typeParameters
  | accessorList
  | constraint
  | baseList
  | functionBody
  | variableDeclaration
  | qualifiedName
  | typeName
  | typeCore
  | testedType
  | typeArguments
  | simpleName
  | expression
  | guardExpression
  | operand
  | unary
  | primary
  | atom
  | lambda
  | query
  | queryBody
  | creation
  | initializer
  | argumentList
  | argument
  | bracketedArguments
  | declarationExpression
  | pattern
  | patternOperand
  | constantPattern
  | subpatterns
  | designation
  | condition
  | castOpening
deriving DecidableEq, Repr

/-- How many constructs there are; no construct refers to more than these before it reads a token. -/
def constructCount : Nat := 48

abbrev CRule := Rule Construct

namespace CRule

def openBrace : CRule := "\x7b"

def closeBrace : CRule := "\x7d"

def identifier : CRule := .token Token.isIdentifier

def anyWord : CRule := .token (·.kind == .word)

def reservedWord : CRule := .token fun token => token.kind == .word && reservedWords.contains token.text

/-- At least one, with commas between them. -/
def commaSeparated (rule : CRule) : CRule := separated "," rule

/-- Any number, with commas between them. -/
def commaList (rule : CRule) : CRule := optional (commaSeparated rule)

/-- A closing angle bracket that the next token follows at once. -/
def joinedAngle : CRule := .token fun token => token.isFixed ">" && token.joined

/-- The words that go on a query, a pattern or an expression where an identifier could otherwise stand. -/
def contextualWords : List String :=
  ["and", "or", "when", "with", "select", "where", "orderby", "group", "join", "let", "into", "on", "equals", "by",
   "ascending", "descending", "from"]

/-- An identifier that goes on no query, pattern or expression. -/
def designator : CRule :=
  .token fun token => token.isIdentifier && !contextualWords.contains token.text

/-- The types with names of their own. -/
def predefinedTypes : List String :=
  ["bool", "byte", "char", "decimal", "double", "float", "int", "long", "object", "sbyte", "short", "string", "uint",
   "ulong", "ushort", "void"]

def predefinedType : CRule := oneOf predefinedTypes

def literal : CRule :=
  .token fun token => token.isString || token.kind == .number || token.kind == .character ||
    token.isFixed "true" || token.isFixed "false" || token.isFixed "null"

/-- The words that open an expression. -/
def openingWords : List String :=
  ["new", "this", "base", "typeof", "sizeof", "default", "checked", "unchecked", "stackalloc", "delegate"] ++
    predefinedTypes

/-- A token that opens an operand and cannot go on an expression. -/
def operandOpening : CRule :=
  any [designator, literal, .ofKind .openText, oneOf openingWords, oneOf ["!", "~", "throw"]]

/-- Alternatives divided by directives, each a row of items. -/
def alternatives (item : CRule) : CRule :=
  all [.ofKind (.directive .openIf), .call .condition, .ofKind .lineEnd, item,
    many (all [.ofKind (.directive .elseIf), .call .condition, .ofKind .lineEnd, item]),
    optional (all [.ofKind (.directive .otherwise), item]),
    .ofKind (.directive .endIf)]

/-- A qualified name up to the point before its last part, as it stands before a member of an interface. -/
def explicitInterface : CRule :=
  all [optional (all [identifier, "::"]), many (all [identifier, optional (.call .typeArguments), "."])]

/-- The dimensions of an array type: commas only. -/
def dimensions : CRule := all ["[", many ",", "]"]

/-- The sizes of a new array. -/
def sizes : CRule := any [dimensions, all ["[", commaSeparated (.call .expression), "]"]]

def declarator : CRule :=
  all [identifier, optional (.call .bracketedArguments),
    optional (all ["=", any [.call .initializer, .call .expression]])]

/-- The attributes and the modifiers in front of a declaration. -/
def annotated (declaration : CRule) : CRule :=
  all [many (.call .attributeList), many (.call .modifier), declaration]

/-- A name in an expression. An angle bracket opens type arguments only if what follows their end cannot follow a
comparison. -/
def expressionName : CRule :=
  any [.node .genericName (all [identifier, .call .typeArguments,
      ahead (any [oneOf ["(", ")", "]", "\x7d", ":", ";", ",", ".", "?", "==", "!=", "|", "^", "&&", "||", "&", "[",
        "->", "::"], .ofKind .closeHole, .ofKind .format])]),
    identifier]

def binaryOperator : CRule :=
  any [oneOf ["||", "&&", "|", "&", "^", "==", "!=", "<", "<=", ">=", "<<", "+", "-", "*", "/", "%", "??"],
    all [joinedAngle, joinedAngle, ">"], all [joinedAngle, ">"], ">"]

def assignmentOperator : CRule :=
  any [oneOf ["=", "+=", "-=", "*=", "/=", "%=", "&=", "|=", "^=", "<<=", "??="],
    all [joinedAngle, ">="], all [joinedAngle, joinedAngle, ">="]]

/-- What extends an expression to the right, where `operand` is the right side of an operator and `branch` the last
branch of a conditional. -/
def extension (operand branch : CRule) : CRule :=
  any [.node .assignment (all [assignmentOperator, .call .expression]),
    .node .operation (all ["?", .call .expression, ":", branch]),
    .node .operation (all [binaryOperator, operand]),
    .node .operation (all ["..", optional operand]),
    .node .operation (all ["is", .call .pattern]),
    .node .operation (all ["as", .call .testedType]),
    .node .operation (all ["switch", openBrace,
      optional (all [commaSeparated (all [.call .pattern, optional (all ["when", .call .guardExpression]), "=>",
        .call .expression]), optional ","]), closeBrace]),
    .node .operation (all ["with", openBrace,
      optional (all [commaSeparated (all [identifier, "=", .call .expression]), optional ","]), closeBrace])]

def functionModifier : CRule := oneOf ["async", "static"]

/-- The type in front of the parameters of an anonymous function. A question mark between a name and the parameters
belongs to a conditional. -/
def resultType : CRule :=
  any [all [predefinedType, many (any ["?", "*", dimensions])],
    all [optional (all ["ref", optional "readonly"]), .call .typeCore,
      many (any ["*", dimensions, all ["?", notAhead "("]])]]

def lambdaBody : CRule := any [.call .block, .call .expression]

/-- What names the element of a query: an identifier with or without its type. -/
def rangeVariable : CRule :=
  any [all [.call .typeName, identifier, "in"], all [identifier, "in"]]

/-- The clause that opens a query or adds a source to it. -/
def fromClause : CRule := all ["from", rangeVariable, .call .expression]

def queryClause : CRule :=
  any [fromClause,
    all ["let", identifier, "=", .call .expression],
    all ["where", .call .expression],
    all ["join", rangeVariable, .call .expression, "on", .call .expression, "equals", .call .expression,
      optional (all ["into", identifier])],
    all ["orderby", commaSeparated (all [.call .expression, optional (oneOf ["ascending", "descending"])])]]

/-- The braces of a property pattern. -/
def propertyClause : CRule :=
  all [openBrace, optional (all [.call .subpatterns, optional ","]), closeBrace]

/-- The round brackets of a positional pattern. -/
def positionalClause : CRule := all ["(", optional (.call .subpatterns), ")"]

def hole : CRule :=
  all [.ofKind .openHole, .call .expression, optional (all [",", .call .expression]), optional (.ofKind .format),
    .ofKind .closeHole]

/-- An expression that may stand as a statement: it calls, creates, assigns, counts or awaits. -/
def hasEffect (tree : Tree) : Bool :=
  [some .invocation, some .creation, some .assignment, some .increment, some .awaiting].contains tree.kind?

/-- The members of a type that begin with their type. -/
def typedMember : CRule :=
  all [.call .typeName,
    any [all [explicitInterface, "operator", optional "checked",
        any [oneOf ["+", "-", "!", "~", "++", "--", "true", "false", "*", "/", "%", "&", "|", "^", "<<", "==", "!=",
          "<", "<=", ">="], all [joinedAngle, joinedAngle, ">"], all [joinedAngle, ">"], ">"],
        .call .parameterList, .call .functionBody],
      all [explicitInterface, "this", "[", commaSeparated (.call .parameter), "]",
        any [.call .accessorList, all ["=>", .call .expression, ";"]]],
      all [explicitInterface, identifier, optional (.call .typeParameters), .call .parameterList,
        many (.call .constraint), .call .functionBody],
      all [explicitInterface, identifier, .call .accessorList,
        optional (all ["=", any [.call .initializer, .call .expression], ";"])],
      all [explicitInterface, identifier, "=>", .call .expression, ";"],
      all [commaSeparated declarator, ";"]]]

/-- The members of a type that begin otherwise. -/
def specialMember : CRule :=
  any [all ["event", .call .typeName,
      any [all [explicitInterface, identifier, .call .accessorList], all [commaSeparated declarator, ";"]]],
    all ["~", identifier, .call .parameterList, .call .functionBody],
    all [oneOf ["implicit", "explicit"], explicitInterface, "operator", optional "checked", .call .typeName,
      .call .parameterList, .call .functionBody],
    all [identifier, .call .parameterList,
      optional (all [":", oneOf ["base", "this"], .call .argumentList]), .call .functionBody]]

def keywordStatement : CRule :=
  any [all ["if", "(", .call .expression, ")", .call .statement, optional (all ["else", .call .statement])],
    all ["while", "(", .call .expression, ")", .call .statement],
    all ["do", .call .statement, "while", "(", .call .expression, ")", ";"],
    all ["for", "(",
      optional (any [all [.call .variableDeclaration, ahead ";"], commaSeparated (.call .expression)]), ";",
      optional (.call .expression), ";", commaList (.call .expression), ")", .call .statement],
    all [optional "await", "foreach", "(",
      any [all [.call .typeName, identifier, "in"], all [.call .expression, "in"]],
      .call .expression, ")", .call .statement],
    all ["switch", "(", commaSeparated (.call .expression), ")", openBrace,
      many (all [any [all ["case", .call .pattern, optional (all ["when", .call .expression])], "default"], ":",
        many (.call .statement)]), closeBrace],
    all ["try", .call .block,
      many (all ["catch", optional (all ["(", .call .typeName, optional identifier, ")"]),
        optional (all ["when", "(", .call .expression, ")"]), .call .block]),
      optional (all ["finally", .call .block])],
    all ["throw", optional (.call .expression), ";"],
    all ["return", optional (.call .expression), ";"],
    all ["break", ";"],
    all ["continue", ";"],
    all ["goto", any [identifier, all ["case", .call .expression], "default"], ";"],
    all ["lock", "(", .call .expression, ")", .call .statement],
    all ["fixed", "(", .call .variableDeclaration, ")", .call .statement],
    all [oneOf ["checked", "unchecked", "unsafe"], .call .block],
    all [optional "await", "using", "(",
      any [all [.call .variableDeclaration, ahead ")"], .call .expression], ")", .call .statement],
    all [optional "await", "using", .call .variableDeclaration, ";"],
    all ["yield", any [all ["return", .call .expression], "break"], ";"]]

def localFunction : CRule :=
  annotated (all [.call .typeName, identifier, optional (.call .typeParameters), .call .parameterList,
    many (.call .constraint), .call .functionBody])

def localVariable : CRule :=
  annotated (all [.call .variableDeclaration, ";"])

def typeHead : CRule :=
  any [all [oneOf ["class", "struct", "interface"], identifier],
    all ["record", optional (oneOf ["class", "struct"]), identifier]]

end CRule

open CRule

/-- The rule of every construct. -/
def grammar : Grammar Construct
  | .sourceFile => many (.call .topLevelItem)
  | .topLevelItem =>
    any [alternatives (many (.call .topLevelItem)),
      all ["extern", "alias", identifier, ";"],
      .call .usingDirective,
      all ["[", oneOf ["assembly", "module"], ":", commaSeparated (.call .attribute), optional ",", "]"],
      .call .namespaceDeclaration,
      annotated (.call .typeDeclaration),
      .call .statement]
  | .usingDirective =>
    all [optional "global", "using",
      any [all [optional "unsafe", identifier, "=", .call .typeName],
        all [optional "static", optional "unsafe", .call .qualifiedName]], ";"]
  | .namespaceDeclaration =>
    all ["namespace", .call .qualifiedName, any [all [.call .memberBlock, optional ";"], ";"]]
  | .memberBlock => all [openBrace, many (.call .member), closeBrace]
  | .member =>
    any [alternatives (many (.call .member)),
      all ["extern", "alias", identifier, ";"],
      .call .usingDirective,
      .call .namespaceDeclaration,
      annotated (any [.call .typeDeclaration, specialMember, typedMember])]
  | .typeDeclaration =>
    any [all [typeHead, many (any [.call .typeParameters, .call .parameterList, .call .baseList]),
        many (.call .constraint), any [all [.call .memberBlock, optional ";"], ";"]],
      all ["enum", identifier, optional (.call .baseList), openBrace,
        many (any [alternatives (many (all [enumMember, enumEnd])), all [enumMember, enumEnd]]),
        closeBrace, optional ";"],
      all ["delegate", .call .typeName, identifier, optional (.call .typeParameters), .call .parameterList,
        many (.call .constraint), ";"]]
  | .attributeList =>
    any [alternatives (many (.call .attributeList)),
      all ["[", optional (all [anyWord, ":"]), commaSeparated (.call .attribute), optional ",", "]"]]
  | .attribute =>
    all [.call .qualifiedName,
      optional (all ["(", commaList (all [optional (all [identifier, oneOf [":", "="]]), .call .expression]), ")"])]
  | .modifier =>
    any [oneOf ["abstract", "const", "extern", "fixed", "internal", "new", "override", "private", "protected",
        "public", "readonly", "ref", "sealed", "static", "unsafe", "virtual", "volatile"],
      all [oneOf ["async", "file", "partial", "required", "scoped"],
        ahead (any [reservedWord, all [.call .modifier, anyWord], all [.call .typeName, anyWord]])]]
  | .parameterList => all ["(", commaList (.call .parameter), ")"]
  | .parameter =>
    all [many (.call .attributeList),
      many (any [oneOf ["ref", "out", "in", "this", "params", "readonly"],
        all ["scoped", ahead (all [optional "ref", .call .typeName, identifier])]]),
      any [all [.call .typeName, identifier], identifier],
      optional (all ["=", .call .expression])]
  | .typeParameters =>
    all ["<", commaSeparated (all [many (.call .attributeList), optional (oneOf ["in", "out"]), identifier]), ">"]
  | .accessorList =>
    all [openBrace,
      many (annotated (all [oneOf ["get", "set", "init", "add", "remove"], .call .functionBody])), closeBrace]
  | .constraint =>
    all ["where", identifier, ":", commaSeparated (any [all ["class", optional "?"], "struct", "default",
      all ["new", "(", ")"], all ["allows", "ref", "struct"], .call .typeName])]
  | .baseList => all [":", commaSeparated (all [.call .typeName, optional (.call .argumentList)])]
  | .functionBody => any [.call .block, all ["=>", .call .expression, ";"], ";"]
  | .variableDeclaration => all [.call .typeName, commaSeparated declarator]
  | .block => all [openBrace, many (.call .statement), closeBrace]
  | .statement =>
    any [.call .block,
      ";",
      alternatives (many (.call .topLevelItem)),
      keywordStatement,
      all [identifier, ":", .call .statement],
      all [notAhead "await", localFunction],
      all [notAhead "await", localVariable],
      all [only hasEffect (.call .expression), ";"]]
  | .qualifiedName =>
    all [optional (all [identifier, "::"]), .call .simpleName, many (all [".", .call .simpleName])]
  | .simpleName => all [identifier, optional (.call .typeArguments)]
  | .typeArguments =>
    any [all ["<", many ",", ">"], all ["<", commaSeparated (.call .typeName), ">"]]
  | .typeName =>
    all [optional (all ["ref", optional "readonly"]), .call .typeCore, many (any ["?", "*", dimensions])]
  | .typeCore =>
    any [predefinedType,
      all ["(", .call .typeName, optional identifier,
        oneOrMore (all [",", .call .typeName, optional identifier]), ")"],
      all ["delegate", "*", optional identifier, optional (all ["[", commaSeparated identifier, "]"]), "<",
        commaSeparated (all [many (oneOf ["ref", "out", "in", "readonly"]), .call .typeName]), ">"],
      .call .qualifiedName]
  | .testedType =>
    all [.call .typeCore,
      many (any [dimensions, all ["?", notAhead (any [operandOpening, oneOf ["(", "[", "-", "+"]])]])]
  | .expression => chain (.call .operand) (extension (.call .operand) (.call .expression))
  | .guardExpression => chain (.call .unary) (extension (.call .unary) (.call .guardExpression))
  | .operand => any [.call .lambda, .call .query, .call .unary]
  | .unary =>
    any [.node .increment (all [oneOf ["++", "--"], .call .unary]),
      .node .operation (all [oneOf ["+", "-", "!", "~", "&", "*", "^", "ref"], .call .unary]),
      .node .operation (all ["throw", .call .operand]),
      .node .operation (all ["..", optional (.call .unary)]),
      .node .awaiting (all ["await", .call .unary]),
      .node .operation (all [ahead (.call .castOpening), "(", .call .typeName, ")", .call .unary]),
      .call .primary]
  | .primary =>
    chain (.call .atom)
      (any [.node .memberAccess (all [oneOf [".", "->"], expressionName]),
        .node .conditionalAccess (all ["?", ".", expressionName]),
        .node .conditionalAccess (all [.token fun token => token.isFixed "?" && token.joined,
          .call .bracketedArguments]),
        .node .elementAccess (.call .bracketedArguments),
        .node .invocation (.call .argumentList),
        .node .increment (oneOf ["++", "--"]),
        .node .operation "!"])
  | .atom =>
    any [literal,
      .node .compound (all [.ofKind .openText, many (any [.ofKind .textPart, hole]), .ofKind .closeText]),
      .call .creation,
      .node .compound (all [oneOf ["typeof", "sizeof"], "(", .call .typeName, ")"]),
      .node .compound (all ["default", any [all ["(", .call .typeName, ")"], notAhead "("]]),
      .node .compound (all [oneOf ["checked", "unchecked"], "(", .call .expression, ")"]),
      .node .compound (all ["stackalloc", any [all ["[", "]", .call .initializer],
        all [.call .typeCore, many (oneOf ["?", "*"]), oneOrMore sizes, optional (.call .initializer)]]]),
      .node .compound (all [many functionModifier, "delegate", optional (.call .parameterList), .call .block]),
      .node .compound (all ["(",
        any [all [identifier, ":", item, oneOrMore (all [",", namedItem])],
          all [.call .declarationExpression, oneOrMore (all [",", namedItem])],
          all [.call .expression, many (all [",", namedItem])]], ")"]),
      .node .compound (.call .bracketedArguments),
      oneOf ["this", "base"],
      predefinedType,
      .node .compound (all [identifier, "::", expressionName]),
      expressionName,
      .node .compound (alternatives (.call .expression))]
  | .lambda =>
    .node .compound (any [all [identifier, "=>", lambdaBody],
      all [oneOrMore functionModifier, identifier, "=>", lambdaBody],
      all [ahead (all [many (.call .attributeList), many functionModifier, .call .parameterList, "=>"]),
        many (.call .attributeList), many functionModifier, .call .parameterList, "=>", lambdaBody],
      all [ahead (all [many functionModifier, resultType, .call .parameterList, "=>"]),
        many functionModifier, resultType, .call .parameterList, "=>", lambdaBody]])
  | .query => .node .compound (all [fromClause, .call .queryBody])
  | .queryBody =>
    all [many queryClause,
      any [all ["select", .call .expression], all ["group", .call .expression, "by", .call .expression]],
      optional (all ["into", identifier, .call .queryBody])]
  | .creation =>
    any [.node .compound (all ["new", .call .argumentList, optional (.call .initializer)]),
      .node .compound (all ["new", .call .initializer]),
      .node .compound (all ["new", dimensions, .call .initializer]),
      .node .compound (all ["new", .call .typeCore, many (oneOf ["?", "*"]), oneOrMore sizes,
        optional (.call .initializer)]),
      .node .creation (all ["new",
        any [all [identifier, notAhead (oneOf [".", "<", "::", "*"]), notAhead (all ["?", oneOf ["(", "\x7b"]])],
          .node .typeName (all [.call .typeCore, many "*", optional (all ["?", ahead (oneOf ["(", "\x7b"])])])],
        optional (.call .argumentList), optional (.call .initializer)])]
  | .initializer =>
    .node .compound (all [openBrace,
      optional (all [commaSeparated (any [.call .initializer,
        all [.call .bracketedArguments, "=", any [.call .initializer, .call .expression]],
        all [identifier, "=", .call .initializer],
        .call .expression]), optional ","]), closeBrace])
  | .argumentList => .node .argumentList (all ["(", commaList (.call .argument), ")"])
  | .argument =>
    .node .argument (all [optional (all [identifier, ":"]), optional (oneOf ["ref", "out", "in"]),
      any [.call .declarationExpression, .call .expression]])
  | .bracketedArguments => all ["[", commaSeparated (.call .argument), optional ",", "]"]
  | .declarationExpression =>
    .node .compound (all [.call .typeName, identifier, ahead (oneOf [",", ")", "]"])])
  | .pattern =>
    chain (.call .patternOperand) (.node .operation (all [oneOf ["and", "or"], .call .patternOperand]))
  | .patternOperand =>
    any [.node .operation (all ["not", .call .patternOperand]),
      .node .operation (all [oneOf ["<", "<=", ">", ">="], .call .constantPattern]),
      .node .compound (all ["..", optional (.call .patternOperand)]),
      .node .compound (all ["var", .call .designation]),
      .node .compound (all ["[", optional (all [commaSeparated (.call .pattern), optional ","]), "]",
        optional designator]),
      all [ahead (all ["(", .call .typeName, ")", any [literal, oneOf ["+", "-"]]]), .call .constantPattern],
      .node .compound (all [positionalClause, optional propertyClause, optional designator]),
      .node .compound (all [propertyClause, optional designator]),
      .node .compound (all [.call .testedType, any [all [positionalClause, optional propertyClause], propertyClause],
        optional designator]),
      .node .compound (all [.call .testedType, .call .designation]),
      .node .compound (all [.call .testedType, ahead (oneOf [":", ",", ")", "]", "\x7d", "=>", "&&", "||", "?", ";",
        "and", "or", "when", "==", "!="])]),
      .call .constantPattern]
  | .constantPattern =>
    chain (.call .unary) (.node .operation (all [any [oneOf ["+", "-", "*", "/", "%", "<<", "&", "|", "^"],
      all [joinedAngle, ">"]], .call .unary]))
  | .subpatterns =>
    commaSeparated (all [optional (all [identifier, many (all [".", identifier]), ":"]), .call .pattern])
  | .designation => any [designator, all ["(", commaList (.call .designation), ")"]]
  -- A type in brackets that makes a cast of what follows it. A bare name in brackets before an opening bracket is
  -- read as a function that is called, unless these brackets are a cast in turn.
  | .castOpening =>
    any [all ["(", predefinedType, many (any ["?", "*", dimensions]), ")",
        any [operandOpening, oneOf ["(", "+", "-", "*", "&", "^", "++", "--"]]],
      all ["(", .call .typeName, ")", any [operandOpening, .call .castOpening]],
      all ["(", notAhead (all [.call .qualifiedName, ")"]), .call .typeName, ")", "("]]
  | .condition =>
    separated (oneOf ["&&", "||", "==", "!="])
      (all [many "!", any [anyWord, literal, all ["(", .call .condition, ")"]]])
where
  /-- A part of a tuple: a value or the declaration of a variable. -/
  item : CRule := any [.call .declarationExpression, .call .expression]
  /-- A part of a tuple that may have a name. -/
  namedItem : CRule := all [optional (all [identifier, ":"]), item]
  /-- A member of an enumeration. -/
  enumMember : CRule :=
    all [many (.call .attributeList), identifier, optional (all ["=", .call .expression])]
  /-- What ends a member of an enumeration: a comma, or the end of the members. -/
  enumEnd : CRule :=
    any [",", ahead (any [closeBrace, .ofKind (.directive .elseIf), .ofKind (.directive .otherwise),
      .ofKind (.directive .endIf)])]

end TextHarvest.CSharp
