/-!
# The log

Log lines name the part of the library that wrote them.
-/

namespace DocTree

/-- The importance of a log line. -/
inductive LogLevel where
  | debug
  | info
  | warning
  | error
  deriving DecidableEq, Repr

namespace LogLevel

def rank : LogLevel → Nat
  | debug => 10
  | info => 20
  | warning => 30
  | error => 40

def column : LogLevel → String
  | debug => "DEBUG"
  | info => "INFO "
  | warning => "WARNI"
  | error => "ERROR"

end LogLevel

/-- The parts of the library that write log lines. -/
inductive LogSource where
  | commandLine
  | options
  | conversion
  | loading
  | resolution
  | typeExpressions
  deriving DecidableEq, Repr

/-- The name of a part in the log. -/
def LogSource.name : LogSource → String
  | commandLine => "missing_exports"
  | options => "missing_exports.application"
  | conversion => "missing_exports.context"
  | loading => "missing_exports.loader"
  | resolution => "missing_exports.resolver"
  | typeExpressions => "missing_exports.typeexpr"

/-- A log line: how important it is, which part of the library wrote it, and what it says. -/
structure LogLine where
  level : LogLevel
  source : LogSource
  message : String
  deriving Repr

/-- A log line as it is shown. -/
def LogLine.text (line : LogLine) : String :=
  "[" ++ line.level.column ++ "] " ++ line.source.name ++ ": " ++ line.message

end DocTree
