/-!
# Log entries

What the analysis logs about its own progress. A threshold keeps the entries that are at least as severe.
-/

namespace BlockingCalls

inductive Level where
  | debug
  | info
  | warning
  | error
  | critical
  deriving Repr, BEq, DecidableEq

namespace Level

def severity : Level → Nat
  | .debug => 10
  | .info => 20
  | .warning => 30
  | .error => 40
  | .critical => 50

def label : Level → String
  | .debug => "DEBUG"
  | .info => "INFO"
  | .warning => "WARNING"
  | .error => "ERROR"
  | .critical => "CRITICAL"

end Level

structure LogEntry where
  level : Level
  message : String
  deriving Repr, BEq, DecidableEq

namespace LogEntry

def debug (message : String) : LogEntry := ⟨.debug, message⟩

def info (message : String) : LogEntry := ⟨.info, message⟩

def warning (message : String) : LogEntry := ⟨.warning, message⟩

end LogEntry

end BlockingCalls
