import NetWorth.Calendar.Fault
import NetWorth.Value

/-! Everything that can go wrong with a scenario, and its wording. A missed objective is kept apart
from a scenario that is malformed. -/
namespace NetWorth

inductive NumberFault
  /-- The whole part of the number is no amount. -/
  | notAnAmount (value : Float)
  /-- A reason given in words. -/
  | other (reason : String)
  deriving DecidableEq

def NumberFault.message : NumberFault → String
  | notAnAmount value => Decimal.message value ++ " is not a representable amount"
  | other reason => reason

inductive EvalError
  | undefinedVariable (name : String)
  | duplicateVariable (name : String)
  | typeMismatch (name : String) (expected actual : ValueType)
  | invalidDate (fault : DateFault)
  | invalidNumber (fault : NumberFault)
  | divisionByZero
  deriving DecidableEq

def EvalError.message : EvalError → String
  | undefinedVariable name => "Undefined variable '" ++ name ++ "'"
  | duplicateVariable name => "Variable '" ++ name ++ "' is already declared in this scope"
  | typeMismatch name expected actual =>
    "Variable '" ++ name ++ "' has type " ++ actual.name ++ ", expected " ++ expected.name
  | invalidDate fault => "Invalid date: " ++ fault.message
  | invalidNumber fault => "Invalid number: " ++ fault.message
  | divisionByZero => "Division by zero"

inductive ReconcileError
  | objectiveNotMet (caseName objective reason : String)
  | missingCase (name : String)
  deriving DecidableEq

def ReconcileError.message : ReconcileError → String
  | objectiveNotMet caseName objective reason =>
    "Objective '" ++ objective ++ "' of case '" ++ caseName ++ "' not met: " ++ reason
  | missingCase name => "Case '" ++ name ++ "' not found"

inductive SettingsFault
  | noSamples
  | blankLabel
  | equalLabels
  /-- A reason given in words. -/
  | other (reason : String)
  deriving DecidableEq

def SettingsFault.message : SettingsFault → String
  | noSamples => "max_samples must be > 0"
  | blankLabel => "labels must not be empty"
  | equalLabels => "planned_label and done_label must differ"
  | other reason => reason

inductive ValidationError
  | missingField (field : String)
  | invalidSettings (fault : SettingsFault)
  | untrimmedName (name : String)
  | duplicateCase (name : String)
  | invalidRate (rate : Float)
  deriving DecidableEq

def ValidationError.message : ValidationError → String
  | missingField field => "Required field '" ++ field ++ "' is missing"
  | invalidSettings fault => "Invalid configuration: " ++ fault.message
  | untrimmedName name => "Case name '" ++ name ++ "' has leading or trailing whitespace"
  | duplicateCase name => "Case '" ++ name ++ "' is declared more than once"
  | invalidRate rate =>
    "Appreciation rate " ++ Decimal.message rate ++ " is not a finite number"

inductive FileFault
  | notFound
  | notText
  deriving DecidableEq

def FileFault.message : FileFault → String
  | notFound => "no such file"
  | notText => "the file is not valid UTF-8"

inductive ScenarioError
  | evaluation (error : EvalError)
  | reconciliation (error : ReconcileError)
  | validation (error : ValidationError)
  | file (fault : FileFault)
  | unreadable
  | internal (message : String)
  deriving DecidableEq

namespace ScenarioError

def message : ScenarioError → String
  | evaluation error => "Evaluation error: " ++ error.message
  | reconciliation error => "Reconciliation error: " ++ error.message
  | validation error => "Validation error: " ++ error.message
  | file fault => "I/O error: " ++ fault.message
  | unreadable => "JSON error: not such a document"
  | internal message => "Internal error: " ++ message

def isObjectiveNotMet : ScenarioError → Bool
  | reconciliation (.objectiveNotMet ..) => true
  | _ => false

/-- The scenario itself is wrong: its variables, dates or expressions, its declarations, or a case
that has to be there and is not. -/
def isMalformedScenario : ScenarioError → Bool
  | evaluation _ | validation _ | reconciliation (.missingCase _) => true
  | _ => false

def isValidation : ScenarioError → Bool
  | validation _ => true
  | _ => false

/-- No error goes away by trying again with the same scenario. -/
def isRetryable (_ : ScenarioError) : Bool := false

end ScenarioError

end NetWorth
