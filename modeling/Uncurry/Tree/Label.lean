/-!
# Labels of the nodes of a syntax tree
-/
namespace Uncurry

inductive Label
  | program | block | varDecl | varDeclarator | emptyStmt | debuggerStmt | exprStmt | ifStmt
  | forStmt | forIn | forOf | whileStmt | doWhile | switchStmt | switchCase | tryStmt
  | catchClause | returnStmt | breakStmt | continueStmt | throwStmt | withStmt | labeledStmt
  | functionDecl | functionExpr | params | arrow | classDecl | classExpr | classBody
  | staticBlock | method | getter | setter | field
  | importDecl | importDefault | importNamespace | importSpecifier | exportDefault | exportAll
  | exportNamed | exportSpecifiers | exportSpecifier
  | objectPattern | patternProperty | arrayPattern | assignPattern | rest
  | sequence | assign | yieldValue | yieldDelegate | conditional | binary | logical | unary
  | updatePrefix | updatePostfix | awaitValue | member | memberComputed | taggedTemplate | call
  | optionalCall | optionalComputed | optionalMember | construct | newTarget | args | spread
  | paren | importCall | importMeta | template | array | object | property | shorthand
  | computedKey
  deriving DecidableEq, Inhabited

namespace Label

def name : Label → String
  | .program => "program"
  | .block => "block"
  | .varDecl => "var_decl"
  | .varDeclarator => "var_declarator"
  | .emptyStmt => "empty_stmt"
  | .debuggerStmt => "debugger_stmt"
  | .exprStmt => "expr_stmt"
  | .ifStmt => "if_stmt"
  | .forStmt => "for_stmt"
  | .forIn => "for_in"
  | .forOf => "for_of"
  | .whileStmt => "while_stmt"
  | .doWhile => "do_while"
  | .switchStmt => "switch_stmt"
  | .switchCase => "switch_case"
  | .tryStmt => "try_stmt"
  | .catchClause => "catch_clause"
  | .returnStmt => "return_stmt"
  | .breakStmt => "break_stmt"
  | .continueStmt => "continue_stmt"
  | .throwStmt => "throw_stmt"
  | .withStmt => "with_stmt"
  | .labeledStmt => "labeled_stmt"
  | .functionDecl => "function_decl"
  | .functionExpr => "function_expr"
  | .params => "params"
  | .arrow => "arrow"
  | .classDecl => "class_decl"
  | .classExpr => "class_expr"
  | .classBody => "class_body"
  | .staticBlock => "static_block"
  | .method => "method"
  | .getter => "getter"
  | .setter => "setter"
  | .field => "field"
  | .importDecl => "import_decl"
  | .importDefault => "import_default"
  | .importNamespace => "import_namespace"
  | .importSpecifier => "import_specifier"
  | .exportDefault => "export_default"
  | .exportAll => "export_all"
  | .exportNamed => "export_named"
  | .exportSpecifiers => "export_specifiers"
  | .exportSpecifier => "export_specifier"
  | .objectPattern => "object_pattern"
  | .patternProperty => "pattern_property"
  | .arrayPattern => "array_pattern"
  | .assignPattern => "assign_pattern"
  | .rest => "rest"
  | .sequence => "sequence"
  | .assign => "assign"
  | .yieldValue => "yield"
  | .yieldDelegate => "yield_delegate"
  | .conditional => "conditional"
  | .binary => "binary"
  | .logical => "logical"
  | .unary => "unary"
  | .updatePrefix => "update_prefix"
  | .updatePostfix => "update_postfix"
  | .awaitValue => "await"
  | .member => "member"
  | .memberComputed => "member_computed"
  | .taggedTemplate => "tagged_template"
  | .call => "call"
  | .optionalCall => "optional_call"
  | .optionalComputed => "optional_computed"
  | .optionalMember => "optional_member"
  | .construct => "new"
  | .newTarget => "new_target"
  | .args => "args"
  | .spread => "spread"
  | .paren => "paren"
  | .importCall => "import_call"
  | .importMeta => "import_meta"
  | .template => "template"
  | .array => "array"
  | .object => "object"
  | .property => "property"
  | .shorthand => "shorthand"
  | .computedKey => "computed_key"

/-- Every label. -/
def all : List Label :=
  [.program, .block, .varDecl, .varDeclarator, .emptyStmt, .debuggerStmt, .exprStmt, .ifStmt,
   .forStmt, .forIn, .forOf, .whileStmt, .doWhile, .switchStmt, .switchCase, .tryStmt,
   .catchClause, .returnStmt, .breakStmt, .continueStmt, .throwStmt, .withStmt, .labeledStmt,
   .functionDecl, .functionExpr, .params, .arrow, .classDecl, .classExpr, .classBody,
   .staticBlock, .method, .getter, .setter, .field, .importDecl, .importDefault,
   .importNamespace, .importSpecifier, .exportDefault, .exportAll, .exportNamed,
   .exportSpecifiers, .exportSpecifier, .objectPattern, .patternProperty, .arrayPattern,
   .assignPattern, .rest, .sequence, .assign, .yieldValue, .yieldDelegate, .conditional, .binary,
   .logical, .unary, .updatePrefix, .updatePostfix, .awaitValue, .member, .memberComputed,
   .taggedTemplate, .call, .optionalCall, .optionalComputed, .optionalMember, .construct,
   .newTarget, .args, .spread, .paren, .importCall, .importMeta, .template, .array, .object,
   .property, .shorthand, .computedKey]

theorem mem_all (label : Label) : label ∈ all := by cases label <;> decide

/-- The label of this name. -/
def ofName? (name : String) : Option Label := all.find? fun label => label.name = name

/-- Whether the children of a node are a list of statements. -/
def isStatementList : Label → Bool
  | .program | .block | .switchCase | .staticBlock => true
  | _ => false

end Label

end Uncurry
