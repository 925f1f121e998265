import Reckon.Binary64.Arithmetic
import Reckon.Evaluation
import Reckon.Token.Scan

/-!
# Working out an expression

Joins the reading of a text with the evaluation of its tokens on machine numbers: `evaluate` gives
the value or the fault, `evaluateLog` what is noted on the way.
-/

namespace Reckon

namespace EvalError

def message : EvalError → Text
  | divisionByZero => "division by zero".toList
  | mismatchedParenthesis => "mismatched parenthesis".toList
  | missingOperand op => "missing operand for '".toList ++ op.symbol ++ ['\x27']
  | danglingOperands count =>
    Numeral.write count ++ " operands left without an operator".toList
  | emptyExpression => "empty expression".toList

def description : EvalError → Text
  | divisionByZero => "Division by zero".toList
  | mismatchedParenthesis => "Mismatched parenthesis".toList
  | missingOperand _ => "Missing operand".toList
  | danglingOperands _ => "Operands left without an operator".toList
  | emptyExpression => "Empty expression".toList

end EvalError

/-- Why an expression has no value: its text has no tokens, or its tokens have no value. -/
inductive CalculationError
  | token (e : TokenError)
  | eval (e : EvalError)
  deriving DecidableEq

namespace CalculationError

def message : CalculationError → Text
  | token e => e.message
  | eval e => e.message

def description : CalculationError → Text
  | token e => e.description
  | eval e => e.description

def causes : CalculationError → List Text
  | token e => e.causes
  | eval _ => []

end CalculationError

/-- One operation on machine numbers. Both divisions refuse a zero divisor of either sign; the
remainder does not. -/
def applyOperator (op : Operator) (x y : Binary64) : Except EvalError Binary64 :=
  match op with
  | .add => .ok (x.add y)
  | .sub => .ok (x.sub y)
  | .mul => .ok (x.mul y)
  | .div => if y.isZero then .error .divisionByZero else .ok (x.div y)
  | .pow => .ok (x.pow y)
  | .rem => .ok (x.rem y)
  | .intDiv => if y.isZero then .error .divisionByZero else .ok (x.div y).floor

/-- The value of the expression that a text spells. -/
def evaluate (strict : Bool) (source : Text) : Except CalculationError Binary64 :=
  match tokenize strict source with
  | .error e => .error (.token e)
  | .ok tokens => (evaluateTokens applyOperator tokens).mapError .eval

def reductionRecord (r : Reduction Binary64) : LogRecord :=
  ⟨.trace, r.left.plainText ++ ' ' :: r.op.symbol ++ ' ' :: r.right.plainText ++ " = ".toList
    ++ r.result.plainText⟩

/-- Every application of an operator, then the value. -/
def evaluationRecords (source : Text) (evaluation : Evaluation Binary64) : List LogRecord :=
  evaluation.performed.map reductionRecord
    ++ match evaluation.outcome with
      | .error _ => []
      | .ok x => [⟨.debug, Text.quoted source ++ " evaluated to ".toList ++ x.plainText⟩]

/-- What is noted while the expression is worked out. -/
def evaluateLog (strict : Bool) (source : Text) : List LogRecord :=
  tokenizeLog strict source
    ++ match tokenize strict source with
      | .error _ => []
      | .ok tokens => evaluationRecords source (.ofTokens applyOperator tokens)

end Reckon
