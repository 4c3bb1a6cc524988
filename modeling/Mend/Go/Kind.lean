/-! The kinds of nodes in a Go syntax tree. -/
namespace Mend.Go

inductive Kind
  | argumentList
  | arrayType
  | assignmentStatement
  | binaryExpression
  | blankIdentifier
  | block
  | breakStatement
  | callExpression
  | channelType
  | comment
  | communicationCase
  | compositeLiteral
  | constDeclaration
  | constSpec
  | continueStatement
  | decStatement
  | defaultCase
  | deferStatement
  | dot
  | emptyStatement
  | error
  | escapeSequence
  | expressionCase
  | expressionList
  | expressionStatement
  | expressionSwitchStatement
  | fallthroughStatement
  | falseValue
  | fieldDeclaration
  | fieldDeclarationList
  | fieldIdentifier
  | floatLiteral
  | forClause
  | forStatement
  | funcLiteral
  | functionDeclaration
  | functionType
  | genericType
  | goStatement
  | gotoStatement
  | identifier
  | ifStatement
  | imaginaryLiteral
  | implicitLengthArrayType
  | importDeclaration
  | importSpec
  | importSpecList
  | incStatement
  | indexExpression
  | intLiteral
  | interfaceType
  | interpretedStringLiteral
  | interpretedStringLiteralContent
  | iota
  | keyedElement
  | labelName
  | labeledStatement
  | literalElement
  | literalValue
  | mapType
  | methodDeclaration
  | methodElem
  | negatedType
  | nilValue
  | packageClause
  | packageIdentifier
  | parameterDeclaration
  | parameterList
  | parenthesizedExpression
  | parenthesizedType
  | pointerType
  | qualifiedType
  | rangeClause
  | rawStringLiteral
  | rawStringLiteralContent
  | receiveStatement
  | returnStatement
  | runeLiteral
  | selectStatement
  | selectorExpression
  | sendStatement
  | shortVarDeclaration
  | sliceExpression
  | sliceType
  | sourceFile
  | structType
  | trueValue
  | typeAlias
  | typeArguments
  | typeAssertionExpression
  | typeCase
  | typeConstraint
  | typeConversionExpression
  | typeDeclaration
  | typeElem
  | typeIdentifier
  | typeInstantiationExpression
  | typeParameterDeclaration
  | typeParameterList
  | typeSpec
  | typeSwitchStatement
  | unaryExpression
  | varDeclaration
  | varSpec
  | varSpecList
  | variadicArgument
  | variadicParameterDeclaration
  /-- A keyword, operator or punctuation mark, named by its spelling. -/
  | fixed (spelling : List Char)
deriving DecidableEq, Repr

/-- What the Go grammar calls a kind of nodes. -/
def Kind.name : Kind → String
  | argumentList => "argument_list"
  | arrayType => "array_type"
  | assignmentStatement => "assignment_statement"
  | binaryExpression => "binary_expression"
  | blankIdentifier => "blank_identifier"
  | block => "block"
  | breakStatement => "break_statement"
  | callExpression => "call_expression"
  | channelType => "channel_type"
  | comment => "comment"
  | communicationCase => "communication_case"
  | compositeLiteral => "composite_literal"
  | constDeclaration => "const_declaration"
  | constSpec => "const_spec"
  | continueStatement => "continue_statement"
  | decStatement => "dec_statement"
  | defaultCase => "default_case"
  | deferStatement => "defer_statement"
  | dot => "dot"
  | emptyStatement => "empty_statement"
  | error => "ERROR"
  | escapeSequence => "escape_sequence"
  | expressionCase => "expression_case"
  | expressionList => "expression_list"
  | expressionStatement => "expression_statement"
  | expressionSwitchStatement => "expression_switch_statement"
  | fallthroughStatement => "fallthrough_statement"
  | falseValue => "false"
  | fieldDeclaration => "field_declaration"
  | fieldDeclarationList => "field_declaration_list"
  | fieldIdentifier => "field_identifier"
  | floatLiteral => "float_literal"
  | forClause => "for_clause"
  | forStatement => "for_statement"
  | funcLiteral => "func_literal"
  | functionDeclaration => "function_declaration"
  | functionType => "function_type"
  | genericType => "generic_type"
  | goStatement => "go_statement"
  | gotoStatement => "goto_statement"
  | identifier => "identifier"
  | ifStatement => "if_statement"
  | imaginaryLiteral => "imaginary_literal"
  | implicitLengthArrayType => "implicit_length_array_type"
  | importDeclaration => "import_declaration"
  | importSpec => "import_spec"
  | importSpecList => "import_spec_list"
  | incStatement => "inc_statement"
  | indexExpression => "index_expression"
  | intLiteral => "int_literal"
  | interfaceType => "interface_type"
  | interpretedStringLiteral => "interpreted_string_literal"
  | interpretedStringLiteralContent => "interpreted_string_literal_content"
  | iota => "iota"
  | keyedElement => "keyed_element"
  | labelName => "label_name"
  | labeledStatement => "labeled_statement"
  | literalElement => "literal_element"
  | literalValue => "literal_value"
  | mapType => "map_type"
  | methodDeclaration => "method_declaration"
  | methodElem => "method_elem"
  | negatedType => "negated_type"
  | nilValue => "nil"
  | packageClause => "package_clause"
  | packageIdentifier => "package_identifier"
  | parameterDeclaration => "parameter_declaration"
  | parameterList => "parameter_list"
  | parenthesizedExpression => "parenthesized_expression"
  | parenthesizedType => "parenthesized_type"
  | pointerType => "pointer_type"
  | qualifiedType => "qualified_type"
  | rangeClause => "range_clause"
  | rawStringLiteral => "raw_string_literal"
  | rawStringLiteralContent => "raw_string_literal_content"
  | receiveStatement => "receive_statement"
  | returnStatement => "return_statement"
  | runeLiteral => "rune_literal"
  | selectStatement => "select_statement"
  | selectorExpression => "selector_expression"
  | sendStatement => "send_statement"
  | shortVarDeclaration => "short_var_declaration"
  | sliceExpression => "slice_expression"
  | sliceType => "slice_type"
  | sourceFile => "source_file"
  | structType => "struct_type"
  | trueValue => "true"
  | typeAlias => "type_alias"
  | typeArguments => "type_arguments"
  | typeAssertionExpression => "type_assertion_expression"
  | typeCase => "type_case"
  | typeConstraint => "type_constraint"
  | typeConversionExpression => "type_conversion_expression"
  | typeDeclaration => "type_declaration"
  | typeElem => "type_elem"
  | typeIdentifier => "type_identifier"
  | typeInstantiationExpression => "type_instantiation_expression"
  | typeParameterDeclaration => "type_parameter_declaration"
  | typeParameterList => "type_parameter_list"
  | typeSpec => "type_spec"
  | typeSwitchStatement => "type_switch_statement"
  | unaryExpression => "unary_expression"
  | varDeclaration => "var_declaration"
  | varSpec => "var_spec"
  | varSpecList => "var_spec_list"
  | variadicArgument => "variadic_argument"
  | variadicParameterDeclaration => "variadic_parameter_declaration"
  | fixed spelling => String.ofList spelling

end Mend.Go
