import Reckon.Text.Basic

/-!
# The log

What the program notes about its own work, from faults down to single steps. A function that has
something to note returns it as a list of records, in the order in which it was noted; nothing is
decided from them.
-/

namespace Reckon

/-- From the gravest to the most detailed. -/
inductive LogLevel
  | error
  | warn
  | info
  | debug
  | trace
  deriving DecidableEq

namespace LogLevel

def name : LogLevel → Text
  | error => "ERROR".toList
  | warn => "WARN".toList
  | info => "INFO".toList
  | debug => "DEBUG".toList
  | trace => "TRACE".toList

/-- Grows with the detail. -/
def detail : LogLevel → Nat
  | error => 1
  | warn => 2
  | info => 3
  | debug => 4
  | trace => 5

/-- Whether a log kept at level `kept` takes a record of level `level`. -/
def admits (kept level : LogLevel) : Bool :=
  level.detail ≤ kept.detail

end LogLevel

structure LogRecord where
  level : LogLevel
  message : Text
  deriving DecidableEq

/-- A fault with its causes on lines of their own: the message first, then what led to it. -/
def faultReport (message : Text) (causes : List Text) : Text :=
  "Error: ".toList ++ message ++ ['\n']
    ++ causes.flatMap fun cause => "Caused by: ".toList ++ cause ++ ['\n']

end Reckon
