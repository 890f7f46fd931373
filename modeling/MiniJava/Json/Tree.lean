import MiniJava.Diagnostics.Diagnostic
import MiniJava.Json.Basic
import MiniJava.Syntax.Program
import MiniJava.Token.Basic

/-!
# Tokens, diagnostics and syntax trees in JSON

Every node of a tree is an object with its parts as members. Where a node may be of several forms a
tag says which one it is, and the tag stands before the parts. A statement that is an expression has
the members of the expression behind its own tag. Parts that are absent are `null`.
-/

namespace MiniJava

def Position.members (position : Position) : List (String × Json) :=
  [("line", .count position.line), ("column", .count position.column)]

def Position.toJson (position : Position) : Json := .object position.members

def Position.ofJson? (json : Json) : Option Position :=
  return ⟨← (← json.member? "line").1.count?, ← (← json.member? "column").1.count?⟩

def Token.toJson (token : Token) : Json :=
  .object ([("kind", .string token.kind.label), ("lexeme", .string token.lexeme)] ++
    token.position.members)

def Diagnostic.toJson (diagnostic : Diagnostic) : Json :=
  .object [("kind", .string diagnostic.kind.label), ("message", .string diagnostic.message),
    ("position", diagnostic.position.toJson)]

namespace BinaryOp

def label : BinaryOp → String
  | or => "or"
  | and => "and"
  | bitOr => "bit_or"
  | bitXor => "bit_xor"
  | bitAnd => "bit_and"
  | eq => "eq"
  | ne => "ne"
  | lt => "lt"
  | le => "le"
  | gt => "gt"
  | ge => "ge"
  | shl => "shl"
  | shr => "shr"
  | ushr => "u_shr"
  | add => "add"
  | sub => "sub"
  | mul => "mul"
  | div => "div"
  | rem => "rem"

def ofLabel? (text : String) : Option BinaryOp := all.find? fun op => op.label = text

end BinaryOp

namespace UnaryOp

def label : UnaryOp → String
  | not => "not"
  | neg => "neg"
  | plus => "plus"
  | bitNot => "bit_not"

def ofLabel? (text : String) : Option UnaryOp := all.find? fun op => op.label = text

end UnaryOp

namespace StepOp

def label : StepOp → String
  | increment => "increment"
  | decrement => "decrement"

def ofLabel? (text : String) : Option StepOp :=
  [increment, decrement].find? fun op => op.label = text

end StepOp

namespace PrintKind

def label : PrintKind → String
  | print => "print"
  | println => "println"
  | printf => "printf"

def ofLabel? (text : String) : Option PrintKind :=
  [print, println, printf].find? fun kind => kind.label = text

end PrintKind

abbrev Members := List (String × Json)

def Modifier.toJson (modifier : Modifier) : Json := .string modifier.word

def modifiersToJson (modifiers : List Modifier) : Json := .array (modifiers.map Modifier.toJson)

def TypeName.toJson (type : TypeName) : Json :=
  .object [("name", .string type.name), ("array_dims", .count type.dimensions)]

def Literal.toJson : Literal → Json
  | .number text => .object [("literal", .string "number"), ("value", .string text)]
  | .string text => .object [("literal", .string "string"), ("value", .string text)]
  | .char text => .object [("literal", .string "char"), ("value", .string text)]
  | .bool value => .object [("literal", .string "bool"), ("value", .bool value)]
  | .null => .object [("literal", .string "null")]

def Expr.members : Expr → Members
  | .literal value position =>
    [("expr", .string "literal"), ("value", value.toJson), ("position", position.toJson)]
  | .name text position =>
    [("expr", .string "ident"), ("name", .string text), ("position", position.toJson)]
  | .binary op lhs rhs =>
    [("expr", .string "binary"), ("op", .string op.label), ("lhs", .object lhs.members),
      ("rhs", .object rhs.members)]
  | .unary op operand =>
    [("expr", .string "unary"), ("op", .string op.label), ("operand", .object operand.members)]
  | .assign target op value position =>
    [("expr", .string "assign"), ("target", .string target),
      ("op", .optional (fun op => .string op.label) op), ("value", .object value.members),
      ("position", position.toJson)]
  | .step target op form position =>
    [("expr", .string "step"), ("target", .string target), ("op", .string op.label),
      ("prefix", .bool (form = .before)), ("position", position.toJson)]

def Expr.toJson (e : Expr) : Json := .object e.members

def exprsToJson (exprs : List Expr) : Json := .array (exprs.map Expr.toJson)

def VarDecl.members (decl : VarDecl) : Members :=
  [("modifiers", modifiersToJson decl.modifiers), ("ty", decl.type.toJson),
    ("name", .string decl.name), ("init", .optional Expr.toJson decl.init),
    ("position", decl.position.toJson)]

/-- A block from the values of its statements. -/
def blockMembers (statements : List Json) : Members := [("statements", .array statements)]

mutual

def Stmt.members : Stmt → Members
  | .declare decl => ("stmt", .string "var_decl") :: decl.members
  | .expression e => ("stmt", .string "expr") :: e.members
  | .block body => ("stmt", .string "block") :: blockMembers (stmtsToJson body)
  | .ifElse condition thenBranch elseBranch =>
    [("stmt", .string "if"), ("condition", condition.toJson),
      ("then_branch", .object thenBranch.members), ("else_branch", optionalStmtToJson elseBranch)]
  | .whileLoop condition body =>
    [("stmt", .string "while"), ("condition", condition.toJson), ("body", .object body.members)]
  | .doWhile body condition =>
    [("stmt", .string "do_while"), ("body", .object body.members),
      ("condition", condition.toJson)]
  | .forLoop init condition update body =>
    [("stmt", .string "for"), ("init", optionalStmtToJson init),
      ("condition", .optional Expr.toJson condition), ("update", exprsToJson update),
      ("body", .object body.members)]
  | .switch scrutinee cases none =>
    [("stmt", .string "switch"), ("scrutinee", scrutinee.toJson),
      ("cases", .array (casesToJson cases)), ("default", .null)]
  | .switch scrutinee cases (some default) =>
    [("stmt", .string "switch"), ("scrutinee", scrutinee.toJson),
      ("cases", .array (casesToJson cases)), ("default", .array (stmtsToJson default))]
  | .tryCatch body catches none =>
    [("stmt", .string "try"), ("body", .object (blockMembers (stmtsToJson body))),
      ("catches", .array (catchesToJson catches)), ("finally", .null)]
  | .tryCatch body catches (some cleanup) =>
    [("stmt", .string "try"), ("body", .object (blockMembers (stmtsToJson body))),
      ("catches", .array (catchesToJson catches)),
      ("finally", .object (blockMembers (stmtsToJson cleanup)))]
  | .print kind args position =>
    [("stmt", .string "print"), ("kind", .string kind.label), ("args", exprsToJson args),
      ("position", position.toJson)]
  | .returns value position =>
    [("stmt", .string "return"), ("value", .optional Expr.toJson value),
      ("position", position.toJson)]
  | .breaks => [("stmt", .string "break")]
  | .continues => [("stmt", .string "continue")]
  | .empty => [("stmt", .string "empty")]

def optionalStmtToJson : Option Stmt → Json
  | none => .null
  | some stmt => .object stmt.members

def stmtsToJson : List Stmt → List Json
  | [] => []
  | first :: rest => .object first.members :: stmtsToJson rest

def casesToJson : List (SwitchCase Stmt) → List Json
  | [] => []
  | ⟨value, body⟩ :: rest =>
    .object [("value", value.toJson), ("body", .array (stmtsToJson body))] :: casesToJson rest

def catchesToJson : List (CatchClause Stmt) → List Json
  | [] => []
  | ⟨exception, name, body, position⟩ :: rest =>
    .object [("exception", exception.toJson), ("name", .string name),
      ("body", .object (blockMembers (stmtsToJson body))), ("position", position.toJson)] ::
      catchesToJson rest

end

def Param.toJson (param : Param) : Json :=
  .object [("ty", param.type.toJson), ("name", .string param.name),
    ("position", param.position.toJson)]

def Method.members (decl : Method) : Members :=
  [("modifiers", modifiersToJson decl.modifiers),
    ("return_type", .optional TypeName.toJson decl.returnType), ("name", .string decl.name),
    ("params", .array (decl.params.map Param.toJson)),
    ("body", .object (blockMembers (stmtsToJson decl.body))),
    ("position", decl.position.toJson)]

mutual

def classMembers : ClassDecl → Members
  | ⟨modifiers, name, members, position⟩ =>
    [("modifiers", modifiersToJson modifiers), ("name", .string name),
      ("members", .array (membersToJson members)), ("position", position.toJson)]

def membersToJson : List Member → List Json
  | [] => []
  | .field decl :: rest =>
    .object (("member", .string "field") :: decl.members) :: membersToJson rest
  | .method decl :: rest =>
    .object (("member", .string "method") :: decl.members) :: membersToJson rest
  | .nested decl :: rest =>
    .object (("member", .string "class") :: classMembers decl) :: membersToJson rest

end

def Item.toJson : Item → Json
  | .declaration decl => .object (("item", .string "class") :: classMembers decl)
  | .statement s => .object (("item", .string "statement") :: s.members)

def Program.toJson (program : Program) : Json :=
  .object [("items", .array (program.items.map Item.toJson))]

end MiniJava
