import Mend.Go.Pattern

/-! The grammar of Go source files. Where a text has two readings, the order of the alternatives
says which one is meant. -/
namespace Mend.Go

inductive Symbol
  | sourceFile
  | topLevelDeclaration
  | importSpec
  | constSpec
  | varSpec
  | typeSpec
  | typeParameters
  | parameters
  | parameter
  | result
  | type
  | simpleType
  | literalType
  | typeName
  | typeArguments
  | typeElem
  | fieldDeclaration
  | interfaceElem
  | block
  | statement
  | declaration
  | simpleStatement
  | ifStatement
  | forStatement
  | switchStatement
  | selectStatement
  | statementList
  | clauseBody
  | expression
  | expressionList
  /-- Operands joined by operators that bind at least as tight as `level`. -/
  | binary (level : Nat)
  | unary
  | primary
  | operand
  | suffix
  | arguments
  | literalValue
  | literalElement
deriving DecidableEq, Repr

namespace Grammar

open Pattern

abbrev P := Pattern Symbol

def terminator : P :=
  alts [hidden (.kind .newline), fixed ";", token (.kind .endOfText) none]

def string : P :=
  alts [token (.kind .quotedString) none, token (.kind .rawString) none]

/-- Things with terminators between them, the last one's being optional, between two marks. -/
def listed (start : String) (item : P) (stop : String) : P :=
  seqs [fixed start, many (seq item (alt terminator (ahead (fixed stop)))), fixed stop]

/-- Things with commas between them, with an optional comma at the end, between two marks. -/
def enumerated (start : String) (item : P) (stop : String) : P :=
  seqs [fixed start, opt (seq (commaSep item) (opt (fixed ","))), fixed stop]

def specs (spec : P) : P := alt (listed "(" spec ")") spec

def label : P := name .labelName

/-- The operators of a level of precedence, from the loosest to the tightest. -/
def binaryOperators : Nat → List String
  | 0 => ["||"]
  | 1 => ["&&"]
  | 2 => ["==", "!=", "<", "<=", ">", ">="]
  | 3 => ["+", "-", "|", "^"]
  | 4 => ["*", "/", "%", "<<", ">>", "&", "&^"]
  | _ => []

def unaryOperators : List String := ["+", "-", "!", "^", "*", "&", "<-"]

def assignmentOperators : List String :=
  ["=", "*=", "/=", "%=", "<<=", ">>=", "&=", "&^=", "+=", "-=", "|=", "^="]

def initializer : P := seq (symbol .simpleStatement) (fixed ";")

/-- What a simple statement may go on with behind its first expression. -/
def simpleStatementTail : P := alts [
  around none .incStatement (fixed "++"),
  around none .decStatement (fixed "--"),
  around none .sendStatement (seq (fixed "<-") (role .value (symbol .expression))),
  into (around none .expressionList (many (seq (fixed ",") (symbol .expression)))) (alts [
    around (some .left) .shortVarDeclaration (seq (fixed ":=") (symbol .expressionList)),
    around (some .left) .assignmentStatement
      (seq (alts (assignmentOperators.map fixed)) (symbol .expressionList))]),
  around none .expressionStatement empty]

/-- What assigns to the variables of a range clause or a receive statement. -/
def assigned : P :=
  opt (seq (role .left (symbol .expressionList)) (alt (fixed "=") (fixed ":=")))

def forClause : P := node .forClause (seqs [
  opt (symbol .simpleStatement), fixed ";", opt (symbol .expression), fixed ";",
  opt (symbol .simpleStatement)])

def rangeClause : P :=
  node .rangeClause (seqs [assigned, fixed "range", symbol .expression])

def defaultCase : P :=
  node .defaultCase (seqs [fixed "default", fixed ":", symbol .clauseBody])

def expressionCase : P :=
  node .expressionCase (seqs [fixed "case", role .value (symbol .expressionList), fixed ":",
    symbol .clauseBody])

def typeCase : P :=
  node .typeCase (seqs [fixed "case", commaSep (symbol .type), fixed ":", symbol .clauseBody])

def communication : P := alt
  (into (symbol .expression)
    (around none .sendStatement (seq (fixed "<-") (role .value (symbol .expression)))))
  (node .receiveStatement (seq assigned (symbol .expression)))

def communicationCase : P :=
  node .communicationCase (seqs [fixed "case", communication, fixed ":", symbol .clauseBody])

def typeSwitch : P := node .typeSwitchStatement (seqs [
  fixed "switch",
  header (seqs [opt initializer, opt (seq (symbol .expressionList) (fixed ":=")),
    role .value (symbol .expression), fixed ".", fixed "(", fixed "type", fixed ")"]),
  fixed "\x7b", inner (many (alt typeCase defaultCase)), fixed "\x7d"])

def expressionSwitch : P := node .expressionSwitchStatement (seqs [
  fixed "switch", header (seq (opt initializer) (opt (role .value (symbol .expression)))),
  fixed "\x7b", inner (many (alt expressionCase defaultCase)), fixed "\x7d"])

/-- A function's parameters, and its results if it has any. -/
def signature : P := seq (symbol .parameters) (opt (symbol .result))

def functionDeclaration : P := node .functionDeclaration (seqs [
  fixed "func", role .name (name .identifier), opt (symbol .typeParameters), signature,
  opt (symbol .block)])

def methodDeclaration : P := node .methodDeclaration (seqs [
  fixed "func", symbol .parameters, role .name (name .fieldIdentifier), signature,
  opt (symbol .block)])

/-- What a channel type holds. -/
def channelElement : P := role .value (symbol .type)

/-- The first argument of the functions that allocate is a type. -/
def allocation : P := node .callExpression (seq
  (alt (word "new" .identifier) (word "make" .identifier))
  (node .argumentList (inner (seqs [fixed "(",
    opt (seqs [symbol .type, many (seq (fixed ",") (symbol .expression)), opt (fixed ",")]),
    fixed ")"]))))

def conversion : P := around none .typeConversionExpression
  (inner (seqs [fixed "(", symbol .expression, opt (fixed ","), fixed ")"]))

/-- A bare or qualified name of a type. -/
def bareTypeName : P := alt
  (node .qualifiedType (seqs [name .packageIdentifier, fixed ".",
    role .name (name .typeIdentifier)]))
  (name .typeIdentifier)

/-- A generic function with its type arguments, where these cannot be an index. -/
def instantiation : P := node .typeInstantiationExpression (inner (seqs [
  bareTypeName, fixed "[",
  alt (symbol .literalType) (seqs [symbol .type, fixed ",", symbol .type]),
  many (seq (fixed ",") (symbol .type)), opt (fixed ","), fixed "]", absent (fixed "(")]))

def slice : P := seqs [
  fixed "[", opt (symbol .expression), fixed ":", opt (symbol .expression),
  opt (seq (fixed ":") (symbol .expression)), fixed "]"]

/-- The pattern behind each symbol. -/
def rule : Symbol → P
  | .sourceFile => seq
      (many (alt
        (seq (symbol .topLevelDeclaration) (alt (hidden (.kind .newline)) (fixed ";")))
        (seq (symbol .statement) terminator)))
      (opt (seq (symbol .topLevelDeclaration) (opt (hidden (.kind .endOfText)))))
  | .topLevelDeclaration => alts [
      node .packageClause (seq (fixed "package") (name .packageIdentifier)),
      functionDeclaration,
      methodDeclaration,
      node .importDeclaration (seq (fixed "import")
        (alt (node .importSpecList (listed "(" (symbol .importSpec) ")")) (symbol .importSpec)))]
  | .importSpec => node .importSpec (seq
      (opt (role .name (alts [
        node .dot (fixed "."),
        word "_" .blankIdentifier,
        name .packageIdentifier])))
      string)
  | .declaration => alts [
      node .constDeclaration (seq (fixed "const") (specs (symbol .constSpec))),
      node .typeDeclaration (seq (fixed "type") (specs (symbol .typeSpec))),
      node .varDeclaration (seq (fixed "var")
        (alt (node .varSpecList (listed "(" (symbol .varSpec) ")")) (symbol .varSpec)))]
  | .constSpec => node .constSpec (seq
      (role .name (commaSep (name .identifier)))
      (opt (seqs [opt (symbol .type), fixed "=", role .value (symbol .expressionList)])))
  | .varSpec =>
      let init := seq (fixed "=") (role .value (symbol .expressionList))
      node .varSpec (seq (role .name (commaSep (name .identifier)))
        (alt init (seq (symbol .type) (opt init))))
  | .typeSpec =>
      let head := seq (role .name (name .typeIdentifier)) (opt (symbol .typeParameters))
      alt (node .typeAlias (seqs [head, fixed "=", symbol .type]))
        (node .typeSpec (seq head (symbol .type)))
  | .typeParameters => node .typeParameterList (inner (seqs [
      fixed "[",
      commaSep (node .typeParameterDeclaration (seq
        (role .name (commaSep (name .identifier)))
        (node .typeConstraint (sepBy (symbol .type) (fixed "|"))))),
      opt (fixed ","), fixed "]"]))
  | .parameters => node .parameterList (inner (enumerated "(" (symbol .parameter) ")"))
  | .parameter => alts [
      node .variadicParameterDeclaration (seqs [
        opt (role .name (name .identifier)), fixed "...", symbol .type]),
      node .parameterDeclaration (seq (role .name (commaSep (name .identifier))) (symbol .type)),
      node .parameterDeclaration (symbol .type)]
  | .result => alt (symbol .parameters) (symbol .simpleType)
  | .type => alt (symbol .simpleType)
      (node .parenthesizedType (seqs [fixed "(", symbol .type, fixed ")"]))
  | .simpleType => alts [symbol .literalType, symbol .typeName,
      node .pointerType (seq (fixed "*") (symbol .type)),
      node .negatedType (seq (fixed "~") (symbol .type))]
  | .literalType => alts [
      node .sliceType (seqs [fixed "[", fixed "]", symbol .type]),
      node .arrayType (seqs [fixed "[", inner (symbol .expression), fixed "]", symbol .type]),
      node .structType (seq (fixed "struct")
        (node .fieldDeclarationList (listed "\x7b" (symbol .fieldDeclaration) "\x7d"))),
      node .interfaceType (seq (fixed "interface") (listed "\x7b" (symbol .interfaceElem) "\x7d")),
      node .mapType (seqs [fixed "map", fixed "[", symbol .type, fixed "]",
        role .value (symbol .type)]),
      node .channelType (alts [
        seqs [fixed "chan", fixed "<-", channelElement],
        seq (fixed "chan") channelElement,
        seqs [fixed "<-", fixed "chan", channelElement]]),
      node .functionType (seq (fixed "func") signature)]
  | .typeName => chain bareTypeName (around none .genericType (symbol .typeArguments))
  | .typeArguments => node .typeArguments (seqs [
      fixed "[", commaSep (symbol .typeElem), opt (fixed ","), fixed "]"])
  | .typeElem => node .typeElem (sepBy (symbol .type) (fixed "|"))
  | .fieldDeclaration => node .fieldDeclaration (seq
      (alt
        (seq (role .name (commaSep (name .fieldIdentifier))) (symbol .type))
        (seq (opt (fixed "*")) (symbol .typeName)))
      (opt string))
  | .interfaceElem => alt
      (node .methodElem (seq (role .name (name .fieldIdentifier)) signature))
      (symbol .typeElem)
  | .block => node .block (inner (seqs [fixed "\x7b", opt (symbol .statementList), fixed "\x7d"]))
  | .statementList => seqs [
      symbol .statement, many (seq terminator (symbol .statement)), opt terminator]
  | .clauseBody => inner (opt (symbol .statementList))
  | .statement => alts [
      symbol .declaration,
      node .returnStatement (seq (fixed "return") (opt (symbol .expressionList))),
      node .goStatement (seq (fixed "go") (symbol .expression)),
      node .deferStatement (seq (fixed "defer") (symbol .expression)),
      symbol .ifStatement,
      symbol .forStatement,
      symbol .switchStatement,
      symbol .selectStatement,
      node .fallthroughStatement (fixed "fallthrough"),
      node .breakStatement (seq (fixed "break") (opt label)),
      node .continueStatement (seq (fixed "continue") (opt label)),
      node .gotoStatement (seq (fixed "goto") label),
      symbol .block,
      node .emptyStatement (fixed ";"),
      node .labeledStatement (seqs [label, fixed ":", opt (symbol .statement)]),
      symbol .simpleStatement]
  | .simpleStatement => into (symbol .expression) simpleStatementTail
  | .ifStatement => node .ifStatement (seqs [
      fixed "if", header (seq (opt initializer) (symbol .expression)), symbol .block,
      opt (seq (fixed "else") (alt (symbol .block) (symbol .ifStatement)))])
  | .forStatement => node .forStatement (seqs [
      fixed "for", header (opt (alts [rangeClause, forClause, symbol .expression])),
      symbol .block])
  | .switchStatement => alt typeSwitch expressionSwitch
  | .selectStatement => node .selectStatement (seqs [
      fixed "select", fixed "\x7b", inner (many (alt communicationCase defaultCase)), fixed "\x7d"])
  | .expression => symbol (.binary 0)
  | .expressionList => node .expressionList (commaSep (symbol .expression))
  | .binary level =>
      if level < 5 then
        chain (symbol (.binary (level + 1))) (around none .binaryExpression
          (seq (alts ((binaryOperators level).map fixed)) (symbol (.binary (level + 1)))))
      else symbol .unary
  | .unary => alt
      (node .unaryExpression (seq (alts (unaryOperators.map fixed)) (symbol .unary)))
      (symbol .primary)
  | .primary => chain (symbol .operand) (symbol .suffix)
  | .operand => alts [
      allocation,
      seq mayBrace (into (symbol .typeName) (around none .compositeLiteral (symbol .literalValue))),
      instantiation,
      word "nil" .nilValue,
      word "true" .trueValue,
      word "false" .falseValue,
      word "iota" .iota,
      name .identifier,
      string,
      token (.kind .intNumber) none,
      token (.kind .floatNumber) none,
      token (.kind .imaginaryNumber) none,
      token (.kind .rune) none,
      node .parenthesizedExpression (seqs [fixed "(", inner (symbol .expression), fixed ")"]),
      node .funcLiteral (seqs [fixed "func", signature, symbol .block]),
      node .compositeLiteral (seq
        (node .implicitLengthArrayType (seqs [fixed "[", fixed "...", fixed "]", symbol .type]))
        (symbol .literalValue)),
      into (symbol .literalType) (alt (around none .compositeLiteral (symbol .literalValue))
        conversion),
      into (node .parenthesizedType (seqs [fixed "(", symbol .type, fixed ")"])) conversion]
  | .suffix => alts [
      around none .selectorExpression (seq (fixed ".") (name .fieldIdentifier)),
      around none .typeAssertionExpression
        (seqs [fixed ".", fixed "(", inner (symbol .type), fixed ")"]),
      around none .callExpression (seq (symbol .typeArguments) (symbol .arguments)),
      around none .indexExpression (seqs [fixed "[", inner (symbol .expression), fixed "]"]),
      around none .sliceExpression (inner slice),
      around none .callExpression (symbol .arguments)]
  | .arguments => node .argumentList (inner (enumerated "("
      (into (symbol .expression) (alt (around none .variadicArgument (fixed "...")) keep)) ")"))
  | .literalValue => node .literalValue (inner (enumerated "\x7b"
      (into (symbol .literalElement) (alt
        (around none .keyedElement (seq (fixed ":") (role .value (symbol .literalElement))))
        keep)) "\x7d"))
  | .literalElement =>
      node .literalElement (alt (symbol .literalValue) (symbol .expression))

end Grammar
end Mend.Go
