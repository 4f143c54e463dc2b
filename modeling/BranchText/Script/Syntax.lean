/-!
# The syntax of scripts

Script blocks are programs of a small language of expressions and statements. The value of a block
of statements is the value of its last statement. `Expression.free` lists the variables that a
closure takes with it: those it mentions before it defines them itself.
-/

namespace BranchText

namespace Script

/-- The least integer that scripts can hold. -/
def smallestInteger : Int := -0x8000000000000000

/-- The greatest integer that scripts can hold. -/
def largestInteger : Int := 0x7FFFFFFFFFFFFFFF

/-- The operators between two operands. -/
inductive Operator where
  | add
  | subtract
  | multiply
  | divide
  | remainder
  | equal
  deriving Repr, DecidableEq

mutual

inductive Expression where
  | unit
  | boolean (value : Bool)
  | integer (value : Int)
  | double (value : Float)
  | text (value : String)
  | variable (name : String)
  | array (items : List Expression)
  | object (fields : List Field)
  | call (function : String) (arguments : List Expression)
  | property (receiver : Expression) (name : String)
  | method (receiver : Expression) (function : String) (arguments : List Expression)
  | negate (operand : Expression)
  | binary (operator : Operator) (left right : Expression)
  | conditional (condition : Expression) (positive negative : List Statement)
  | block (body : List Statement)
  | closure (parameters : List String) (body : List Statement)

/-- A key of an object and the expression for its value. -/
structure Field where
  name : String
  value : Expression

inductive Statement where
  | expression (value : Expression)
  /-- Defines a variable. -/
  | define (name : String) (value : Option Expression)
  | assign (name : String) (value : Expression)
  /-- Adds to a variable. -/
  | increase (name : String) (value : Expression)
  /-- Runs the body for every integer from `low` up to, and not including, `high`. -/
  | count (name : String) (low high : Expression) (body : List Statement)
  | throw (value : Option Expression)
  | attempt (body handler : List Statement)

end

deriving instance Repr for Expression, Field, Statement

/-- A named function. -/
structure FunctionDefinition where
  name : String
  parameters : List String
  body : List Statement
  deriving Repr

/-- A program: its functions, which can be called before they are defined, and its statements. -/
structure Program where
  functions : List FunctionDefinition
  body : List Statement
  deriving Repr

mutual

/-- The variables of an expression that are not among the bound ones. -/
def Expression.free (bound : List String) : Expression → List String
  | .unit => []
  | .boolean _ => []
  | .integer _ => []
  | .double _ => []
  | .text _ => []
  | .variable name => if bound.contains name then [] else [name]
  | .array items => freeOfExpressions bound items
  | .object fields => freeOfFields bound fields
  | .call _ arguments => freeOfExpressions bound arguments
  | .property receiver _ => receiver.free bound
  | .method receiver _ arguments => receiver.free bound ++ freeOfExpressions bound arguments
  | .negate operand => operand.free bound
  | .binary _ left right => left.free bound ++ right.free bound
  | .conditional condition positive negative =>
    condition.free bound ++ freeOfStatements bound positive ++ freeOfStatements bound negative
  | .block body => freeOfStatements bound body
  | .closure parameters body => freeOfStatements (parameters ++ bound) body

/-- The free variables of expressions. -/
def freeOfExpressions (bound : List String) : List Expression → List String
  | [] => []
  | expression :: rest => expression.free bound ++ freeOfExpressions bound rest

/-- The free variables of an expression that may be absent. -/
def freeOfOption (bound : List String) : Option Expression → List String
  | none => []
  | some expression => expression.free bound

/-- The free variables of the fields of an object. -/
def freeOfFields (bound : List String) : List Field → List String
  | [] => []
  | ⟨_, value⟩ :: rest => value.free bound ++ freeOfFields bound rest

/-- The free variables of statements; a definition binds in the statements after it. -/
def freeOfStatements (bound : List String) : List Statement → List String
  | [] => []
  | .expression value :: rest => value.free bound ++ freeOfStatements bound rest
  | .define name value :: rest => freeOfOption bound value ++ freeOfStatements (name :: bound) rest
  | .assign name value :: rest =>
    (if bound.contains name then [] else [name]) ++ value.free bound ++ freeOfStatements bound rest
  | .increase name value :: rest =>
    (if bound.contains name then [] else [name]) ++ value.free bound ++ freeOfStatements bound rest
  | .count name low high body :: rest =>
    low.free bound ++ high.free bound ++ freeOfStatements (name :: bound) body
      ++ freeOfStatements bound rest
  | .throw value :: rest => freeOfOption bound value ++ freeOfStatements bound rest
  | .attempt body handler :: rest =>
    freeOfStatements bound body ++ freeOfStatements bound handler ++ freeOfStatements bound rest

end

end Script

end BranchText
