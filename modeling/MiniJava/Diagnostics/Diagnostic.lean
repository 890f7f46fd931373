import MiniJava.Typing.ValueType

/-!
# Diagnostics

What the checker can find wrong with a program. A diagnostic is a problem at a position; its kind
and its wording follow from the problem.
-/

namespace MiniJava

/-- Statements that have a condition. -/
inductive Conditional where
  | ifElse | whileLoop | doWhile | forLoop
deriving DecidableEq, Repr, Inhabited

def Conditional.written : Conditional → String
  | ifElse => "if"
  | whileLoop => "while"
  | doWhile => "do-while"
  | forLoop => "for"

inductive Problem where
  | redeclared (name : String) (previous : Position)
  | undeclared (name : String)
  | uninitialized (name : String)
  | assignToFinal (name : String)
  | unassignable (source target : ValueType)
  | operands (op : BinaryOp) (lhs rhs : ValueType)
  | assignedOperands (op : BinaryOp) (target source : ValueType)
  | operand (op : UnaryOp) (type : ValueType)
  | stepped (op : StepOp) (target : ValueType)
  | nonBooleanCondition (statement : Conditional) (found : ValueType)
  | missingReturn (method : String) (expected : ValueType)
  | valueFromVoid
  | returnMismatch (actual expected : ValueType)
  | missingValue (expected : ValueType)
deriving DecidableEq, Repr, Inhabited

inductive DiagnosticKind where
  | redeclared
  | undeclared
  | uninitialized
  | assignToFinal
  | typeMismatch
  | nonBooleanCondition
  | missingReturn
  | returnMismatch
deriving DecidableEq, Repr, Inhabited

def DiagnosticKind.label : DiagnosticKind → String
  | redeclared => "redeclared"
  | undeclared => "undeclared"
  | uninitialized => "uninitialized"
  | assignToFinal => "assign-to-final"
  | typeMismatch => "type-mismatch"
  | nonBooleanCondition => "non-boolean-condition"
  | missingReturn => "missing-return"
  | returnMismatch => "return-mismatch"

namespace Problem

def kind : Problem → DiagnosticKind
  | redeclared .. => .redeclared
  | undeclared _ => .undeclared
  | uninitialized _ => .uninitialized
  | assignToFinal _ => .assignToFinal
  | unassignable .. | operands .. | assignedOperands .. | operand .. | stepped .. => .typeMismatch
  | nonBooleanCondition .. => .nonBooleanCondition
  | missingReturn .. => .missingReturn
  | valueFromVoid | returnMismatch .. | missingValue _ => .returnMismatch

def message : Problem → String
  | redeclared name previous =>
    "variable '" ++ name ++ "' is already declared in this scope (at " ++ previous.toText ++ ")"
  | undeclared name => "variable '" ++ name ++ "' is not declared"
  | uninitialized name => "variable '" ++ name ++ "' is used before being initialized"
  | assignToFinal name => "cannot assign to final variable '" ++ name ++ "'"
  | unassignable source target =>
    "cannot assign a value of type '" ++ source.written ++ "' to a variable of type '" ++
      target.written ++ "'"
  | operands op lhs rhs =>
    "operator '" ++ op.symbol ++ "' cannot be applied to '" ++ lhs.written ++ "' and '" ++
      rhs.written ++ "'"
  | assignedOperands op target source =>
    "operator '" ++ op.symbol ++ "=' cannot be applied to '" ++ target.written ++ "' and '" ++
      source.written ++ "'"
  | operand op type =>
    "operator '" ++ op.symbol ++ "' cannot be applied to '" ++ type.written ++ "'"
  | stepped op target =>
    "operator '" ++ op.symbol ++ "' cannot be applied to '" ++ target.written ++ "'"
  | nonBooleanCondition statement found =>
    "condition of '" ++ statement.written ++ "' must be boolean, found '" ++ found.written ++ "'"
  | missingReturn method expected =>
    "method '" ++ method ++ "' must return a value of type '" ++ expected.written ++ "'"
  | valueFromVoid => "cannot return a value from a void method"
  | returnMismatch actual expected =>
    "cannot return '" ++ actual.written ++ "' from a method returning '" ++ expected.written ++ "'"
  | missingValue expected => "missing return value of type '" ++ expected.written ++ "'"

end Problem

structure Diagnostic where
  problem : Problem
  position : Position
deriving DecidableEq, Repr, Inhabited

namespace Diagnostic

def kind (diagnostic : Diagnostic) : DiagnosticKind := diagnostic.problem.kind

def message (diagnostic : Diagnostic) : String := diagnostic.problem.message

/-- One line with position, kind and message. -/
def toText (diagnostic : Diagnostic) : String :=
  diagnostic.position.toText ++ ": error[" ++ diagnostic.kind.label ++ "]: " ++ diagnostic.message

end Diagnostic

end MiniJava
