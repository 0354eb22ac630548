/-!
# Errors

Everything that can be wrong with a unit, one constructor per cause, and the wording of each. An
error never stops an analysis; the last constructor alone says that the compiler itself is at
fault.

* `CompileError.line`, `CompileError.kind`, `CompileError.message`
-/

namespace ClassCompiler

/-- Coarse category of an error. -/
inductive ErrorKind
  | illegalLvalue
  | typeMismatch
  | invalidModifiers
  | missingReturn
  | invalidThrowsType
  | resolution
  | controlFlow
  | internal
  deriving DecidableEq, Inhabited

namespace ErrorKind

def all : List ErrorKind :=
  [illegalLvalue, typeMismatch, invalidModifiers, missingReturn, invalidThrowsType, resolution,
    controlFlow, internal]

def name : ErrorKind → String
  | illegalLvalue => "IllegalLvalue"
  | typeMismatch => "TypeMismatch"
  | invalidModifiers => "InvalidModifiers"
  | missingReturn => "MissingReturn"
  | invalidThrowsType => "InvalidThrowsType"
  | resolution => "Resolution"
  | controlFlow => "ControlFlow"
  | internal => "Internal"

end ErrorKind

inductive CompileError
  /-- The target of an assignment is not a place. -/
  | illegalLvalue (line : Nat)
  /-- A type is not accepted by the operator or context. -/
  | typeMismatch (message : String) (line : Nat)
  /-- Modifiers contradict each other or the body. -/
  | invalidModifiers (message : String) (line : Nat)
  /-- A method with a result can end without one. -/
  | missingReturn (method : String) (line : Nat)
  | invalidThrowsType (type : String) (line : Nat)
  | unknownType (name : String) (line : Nat)
  | unknownVariable (name : String) (line : Nat)
  | unknownField (name type : String) (line : Nat)
  | unknownMethod (name args : String) (line : Nat)
  /-- A local is read before it is assigned. -/
  | uninitializedVariable (name : String) (line : Nat)
  /-- A name is declared twice; `kind` says what it names. -/
  | duplicateDefinition (kind name : String) (line : Nat)
  /-- Something that this place does not allow. -/
  | invalidOperation (message : String) (line : Nat)
  | breakOutsideLoop (line : Nat)
  | continueOutsideLoop (line : Nat)
  /-- The compiler found its own assumptions broken. -/
  | internal (message : String)
  deriving DecidableEq, Inhabited

namespace CompileError

/-- The line an error belongs to; an internal error has none and answers zero. -/
def line : CompileError → Nat
  | illegalLvalue line | typeMismatch _ line | invalidModifiers _ line | missingReturn _ line
  | invalidThrowsType _ line | unknownType _ line | unknownVariable _ line | unknownField _ _ line
  | unknownMethod _ _ line | uninitializedVariable _ line | duplicateDefinition _ _ line
  | invalidOperation _ line | breakOutsideLoop line | continueOutsideLoop line => line
  | internal _ => 0

def kind : CompileError → ErrorKind
  | illegalLvalue _ => .illegalLvalue
  | typeMismatch .. | invalidOperation .. => .typeMismatch
  | invalidModifiers .. => .invalidModifiers
  | missingReturn .. => .missingReturn
  | invalidThrowsType .. => .invalidThrowsType
  | unknownType .. | unknownVariable .. | unknownField .. | unknownMethod ..
  | uninitializedVariable .. | duplicateDefinition .. => .resolution
  | breakOutsideLoop _ | continueOutsideLoop _ => .controlFlow
  | internal _ => .internal

/-- What is wrong, without the line. -/
def reason : CompileError → String
  | illegalLvalue _ => "illegal lhs for assignment"
  | typeMismatch message _ | invalidModifiers message _ | invalidOperation message _
  | internal message => message
  | missingReturn method _ => s!"non-void method '{method}' must have a return statement"
  | invalidThrowsType type _ => s!"throw type must be of type Throwable: \"{type}\""
  | unknownType name _ => s!"unknown type '{name}'"
  | unknownVariable name _ => s!"cannot find variable '{name}'"
  | unknownField name type _ => s!"cannot find field '{name}' in type '{type}'"
  | unknownMethod name args _ => s!"cannot find method '{name}({args})'"
  | uninitializedVariable name _ => s!"variable '{name}' might not have been initialized"
  | duplicateDefinition kind name _ => s!"{kind} '{name}' is already defined"
  | breakOutsideLoop _ => "break outside of a loop"
  | continueOutsideLoop _ => "continue outside of a loop"

def message (error : CompileError) : String :=
  match error with
  | internal _ => "internal compiler error: " ++ error.reason
  | _ => "line " ++ toString error.line ++ ": " ++ error.reason

/-! ## Wording of type errors

The texts that more than one rule uses, with types given by their display names. -/

/-- A type where one other is expected. -/
def unexpectedType (actual expected : String) (line : Nat) : CompileError :=
  typeMismatch s!"type {actual} doesn't match expected type {expected}" line

/-- A type where one of several is expected. -/
def noneOfTypes (actual : String) (expected : List String) (line : Nat) : CompileError :=
  typeMismatch
    ("type " ++ actual ++ " doesn't match any of the expected types ["
      ++ ", ".intercalate expected ++ "]") line

/-- An operator on types that it is not defined for. -/
def inapplicableOperator (symbol : String) (operands : List String) (line : Nat) : CompileError :=
  typeMismatch
    ("operator " ++ symbol ++ " cannot be applied to " ++ ", ".intercalate operands) line

/-- An instance member reached without an instance. -/
def staticContext (member : String) (line : Nat) : CompileError :=
  invalidOperation s!"non-static {member} cannot be referenced from a static context" line

/-- An operand whose call returns nothing. -/
def voidOperand (line : Nat) : CompileError :=
  typeMismatch "'void' type not allowed here" line

end CompileError

end ClassCompiler
