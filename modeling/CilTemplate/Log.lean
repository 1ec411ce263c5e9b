/-
Log lines.  A log is a value that grows as work is done.
-/

namespace CilTemplate

inductive LogLevel
  | error
  | warn
  | info
  | debug
  | trace
deriving DecidableEq

def LogLevel.name : LogLevel → String
  | .error => "ERROR"
  | .warn => "WARN"
  | .info => "INFO"
  | .debug => "DEBUG"
  | .trace => "TRACE"

structure LogLine where
  level : LogLevel
  text : String
deriving DecidableEq

abbrev Log := Array LogLine

end CilTemplate
