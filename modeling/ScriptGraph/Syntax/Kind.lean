/-!
# Kinds of syntax nodes

The closed set of node kinds of the four dialects, the field names that relate a child to its
parent, and the labels of tree nodes: a kind for a named node, a spelling for a plain token.
-/

namespace ScriptGraph.Syntax

/-- The kind of a named syntax node. -/
inductive Kind
  | program | error | comment | hashBangLine | exportStatement | namespaceExport | exportClause
  | exportSpecifier | importStatement | importClause | namespaceImport | namedImports
  | importSpecifier | importRequireClause | importAttribute | importAlias | expressionStatement
  | variableDeclaration | lexicalDeclaration | variableDeclarator | statementBlock | elseClause
  | ifStatement | switchStatement | forStatement | forInStatement | whileStatement | doStatement
  | tryStatement | withStatement | breakStatement | continueStatement | debuggerStatement
  | returnStatement | throwStatement | emptyStatement | labeledStatement | switchBody
  | switchCase | switchDefault | catchClause | finallyClause | parenthesizedExpression
  | yieldExpression | object | objectPattern | assignmentPattern | objectAssignmentPattern
  | array | arrayPattern | jsxElement | jsxExpression | jsxOpeningElement | jsxClosingElement
  | jsxSelfClosingElement | jsxAttribute | jsxText | jsxNamespaceName | htmlCharacterReference
  | nestedIdentifier | classExpression | classDeclaration | abstractClassDeclaration
  | classHeritage | extendsClause | implementsClause | classBody | classStaticBlock | decorator
  | functionExpression | functionDeclaration | generatorFunction | generatorFunctionDeclaration
  | arrowFunction | functionSignature | callExpression | newExpression | awaitExpression
  | memberExpression | subscriptExpression | assignmentExpression | augmentedAssignmentExpression
  | spreadElement | ternaryExpression | binaryExpression | unaryExpression | updateExpression
  | sequenceExpression | asExpression | satisfiesExpression | nonNullExpression
  | instantiationExpression | typeAssertion | metaProperty | string | stringFragment
  | escapeSequence | regex | regexPattern | regexFlags | number | identifier
  | privatePropertyIdentifier | propertyIdentifier | shorthandPropertyIdentifier
  | shorthandPropertyIdentifierPattern | statementIdentifier | typeIdentifier
  | computedPropertyName | thisExpression | superExpression | trueLiteral | falseLiteral
  | nullLiteral | undefinedLiteral | importCallee | arguments | templateString
  | templateSubstitution | optionalChain | formalParameters | restPattern | requiredParameter
  | optionalParameter | methodDefinition | fieldDefinition | publicFieldDefinition
  | methodSignature | abstractMethodSignature | pair | pairPattern | accessibilityModifier
  | overrideModifier | ambientDeclaration | moduleDeclaration | namespaceDeclaration
  | interfaceDeclaration | extendsTypeClause | interfaceBody | enumDeclaration | enumBody
  | enumAssignment | typeAliasDeclaration | typeAscription | omittingTypeAscription
  | optingTypeAscription | addingTypeAscription | asserts | assertsAscription | typePredicate
  | typePredicateAscription | typeQuery | indexTypeQuery | lookupType | mappedTypeClause
  | literalType | existentialType | parenthesizedType | predefinedType | typeArguments
  | objectType | callSignature | propertySignature | typeParameters | typeParameter | defaultType
  | constraint | constructSignature | indexSignature | arrayType | tupleType | readonlyType
  | unionType | intersectionType | functionType | constructorType | thisType | optionalType
  | restType | inferType | conditionalType | genericType | templateType | templateLiteralType
  | nestedTypeIdentifier
deriving DecidableEq, Hashable, Repr, Inhabited

namespace Kind

/-- The name under which results show a kind. -/
def name : Kind → String
  | .program => "program"
  | .error => "ERROR"
  | .comment => "comment"
  | .hashBangLine => "hash_bang_line"
  | .exportStatement => "export_statement"
  | .namespaceExport => "namespace_export"
  | .exportClause => "export_clause"
  | .exportSpecifier => "export_specifier"
  | .importStatement => "import_statement"
  | .importClause => "import_clause"
  | .namespaceImport => "namespace_import"
  | .namedImports => "named_imports"
  | .importSpecifier => "import_specifier"
  | .importRequireClause => "import_require_clause"
  | .importAttribute => "import_attribute"
  | .importAlias => "import_alias"
  | .expressionStatement => "expression_statement"
  | .variableDeclaration => "variable_declaration"
  | .lexicalDeclaration => "lexical_declaration"
  | .variableDeclarator => "variable_declarator"
  | .statementBlock => "statement_block"
  | .elseClause => "else_clause"
  | .ifStatement => "if_statement"
  | .switchStatement => "switch_statement"
  | .forStatement => "for_statement"
  | .forInStatement => "for_in_statement"
  | .whileStatement => "while_statement"
  | .doStatement => "do_statement"
  | .tryStatement => "try_statement"
  | .withStatement => "with_statement"
  | .breakStatement => "break_statement"
  | .continueStatement => "continue_statement"
  | .debuggerStatement => "debugger_statement"
  | .returnStatement => "return_statement"
  | .throwStatement => "throw_statement"
  | .emptyStatement => "empty_statement"
  | .labeledStatement => "labeled_statement"
  | .switchBody => "switch_body"
  | .switchCase => "switch_case"
  | .switchDefault => "switch_default"
  | .catchClause => "catch_clause"
  | .finallyClause => "finally_clause"
  | .parenthesizedExpression => "parenthesized_expression"
  | .yieldExpression => "yield_expression"
  | .object => "object"
  | .objectPattern => "object_pattern"
  | .assignmentPattern => "assignment_pattern"
  | .objectAssignmentPattern => "object_assignment_pattern"
  | .array => "array"
  | .arrayPattern => "array_pattern"
  | .jsxElement => "jsx_element"
  | .jsxExpression => "jsx_expression"
  | .jsxOpeningElement => "jsx_opening_element"
  | .jsxClosingElement => "jsx_closing_element"
  | .jsxSelfClosingElement => "jsx_self_closing_element"
  | .jsxAttribute => "jsx_attribute"
  | .jsxText => "jsx_text"
  | .jsxNamespaceName => "jsx_namespace_name"
  | .htmlCharacterReference => "html_character_reference"
  | .nestedIdentifier => "nested_identifier"
  | .classExpression => "class"
  | .classDeclaration => "class_declaration"
  | .abstractClassDeclaration => "abstract_class_declaration"
  | .classHeritage => "class_heritage"
  | .extendsClause => "extends_clause"
  | .implementsClause => "implements_clause"
  | .classBody => "class_body"
  | .classStaticBlock => "class_static_block"
  | .decorator => "decorator"
  | .functionExpression => "function_expression"
  | .functionDeclaration => "function_declaration"
  | .generatorFunction => "generator_function"
  | .generatorFunctionDeclaration => "generator_function_declaration"
  | .arrowFunction => "arrow_function"
  | .functionSignature => "function_signature"
  | .callExpression => "call_expression"
  | .newExpression => "new_expression"
  | .awaitExpression => "await_expression"
  | .memberExpression => "member_expression"
  | .subscriptExpression => "subscript_expression"
  | .assignmentExpression => "assignment_expression"
  | .augmentedAssignmentExpression => "augmented_assignment_expression"
  | .spreadElement => "spread_element"
  | .ternaryExpression => "ternary_expression"
  | .binaryExpression => "binary_expression"
  | .unaryExpression => "unary_expression"
  | .updateExpression => "update_expression"
  | .sequenceExpression => "sequence_expression"
  | .asExpression => "as_expression"
  | .satisfiesExpression => "satisfies_expression"
  | .nonNullExpression => "non_null_expression"
  | .instantiationExpression => "instantiation_expression"
  | .typeAssertion => "type_assertion"
  | .metaProperty => "meta_property"
  | .string => "string"
  | .stringFragment => "string_fragment"
  | .escapeSequence => "escape_sequence"
  | .regex => "regex"
  | .regexPattern => "regex_pattern"
  | .regexFlags => "regex_flags"
  | .number => "number"
  | .identifier => "identifier"
  | .privatePropertyIdentifier => "private_property_identifier"
  | .propertyIdentifier => "property_identifier"
  | .shorthandPropertyIdentifier => "shorthand_property_identifier"
  | .shorthandPropertyIdentifierPattern => "shorthand_property_identifier_pattern"
  | .statementIdentifier => "statement_identifier"
  | .typeIdentifier => "type_identifier"
  | .computedPropertyName => "computed_property_name"
  | .thisExpression => "this"
  | .superExpression => "super"
  | .trueLiteral => "true"
  | .falseLiteral => "false"
  | .nullLiteral => "null"
  | .undefinedLiteral => "undefined"
  | .importCallee => "import"
  | .arguments => "arguments"
  | .templateString => "template_string"
  | .templateSubstitution => "template_substitution"
  | .optionalChain => "optional_chain"
  | .formalParameters => "formal_parameters"
  | .restPattern => "rest_pattern"
  | .requiredParameter => "required_parameter"
  | .optionalParameter => "optional_parameter"
  | .methodDefinition => "method_definition"
  | .fieldDefinition => "field_definition"
  | .publicFieldDefinition => "public_field_definition"
  | .methodSignature => "method_signature"
  | .abstractMethodSignature => "abstract_method_signature"
  | .pair => "pair"
  | .pairPattern => "pair_pattern"
  | .accessibilityModifier => "accessibility_modifier"
  | .overrideModifier => "override_modifier"
  | .ambientDeclaration => "ambient_declaration"
  | .moduleDeclaration => "module"
  | .namespaceDeclaration => "internal_module"
  | .interfaceDeclaration => "interface_declaration"
  | .extendsTypeClause => "extends_type_clause"
  | .interfaceBody => "interface_body"
  | .enumDeclaration => "enum_declaration"
  | .enumBody => "enum_body"
  | .enumAssignment => "enum_assignment"
  | .typeAliasDeclaration => "type_alias_declaration"
  | .typeAscription => "type_annotation"
  | .omittingTypeAscription => "omitting_type_annotation"
  | .optingTypeAscription => "opting_type_annotation"
  | .addingTypeAscription => "adding_type_annotation"
  | .asserts => "asserts"
  | .assertsAscription => "asserts_annotation"
  | .typePredicate => "type_predicate"
  | .typePredicateAscription => "type_predicate_annotation"
  | .typeQuery => "type_query"
  | .indexTypeQuery => "index_type_query"
  | .lookupType => "lookup_type"
  | .mappedTypeClause => "mapped_type_clause"
  | .literalType => "literal_type"
  | .existentialType => "existential_type"
  | .parenthesizedType => "parenthesized_type"
  | .predefinedType => "predefined_type"
  | .typeArguments => "type_arguments"
  | .objectType => "object_type"
  | .callSignature => "call_signature"
  | .propertySignature => "property_signature"
  | .typeParameters => "type_parameters"
  | .typeParameter => "type_parameter"
  | .defaultType => "default_type"
  | .constraint => "constraint"
  | .constructSignature => "construct_signature"
  | .indexSignature => "index_signature"
  | .arrayType => "array_type"
  | .tupleType => "tuple_type"
  | .readonlyType => "readonly_type"
  | .unionType => "union_type"
  | .intersectionType => "intersection_type"
  | .functionType => "function_type"
  | .constructorType => "constructor_type"
  | .thisType => "this_type"
  | .optionalType => "optional_type"
  | .restType => "rest_type"
  | .inferType => "infer_type"
  | .conditionalType => "conditional_type"
  | .genericType => "generic_type"
  | .templateType => "template_type"
  | .templateLiteralType => "template_literal_type"
  | .nestedTypeIdentifier => "nested_type_identifier"

end Kind

/-- The role of a child in its parent. -/
inductive Field
  | name | kind | declaration | value | source | alias | decorator | body | left | right
  | operator | initializer | condition | increment | consequence | alternative | label
  | parameter | parameters | handler | finalizer | type | typeParameters | typeArguments
  | returnType | pattern | key | property | object | index | optionalChain | callee | arguments
  | constructed | argument | member | openTag | closeTag | jsxAttribute | flags | indexType | sign
  | constraint | qualifier
deriving DecidableEq, Hashable, Repr, Inhabited

/-- What a tree node is: a construct of some kind, or a token that stands for itself. -/
inductive Label
  | construct (kind : Kind)
  | token (spelling : String)
deriving DecidableEq, Hashable, Repr, Inhabited

namespace Label

/-- Whether a node is a construct rather than a plain token. -/
def isNamed : Label → Bool
  | .construct _ => true
  | .token _ => false

/-- The kind's name or the token's spelling. -/
def text : Label → String
  | .construct kind => kind.name
  | .token spelling => spelling

end Label

end ScriptGraph.Syntax
