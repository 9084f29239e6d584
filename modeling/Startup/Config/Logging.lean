import Startup.Failure

/-!
How log lines are filtered and laid out. A configuration names the level by a text, which may not
be one of a level; what a log writer is set up with has the level itself.
-/

namespace Startup

/-! ## Levels -/

inductive LogLevel where
  | error
  | warn
  | info
  | debug
  | trace
  deriving DecidableEq, Repr, Inhabited

namespace LogLevel

def all : List LogLevel := [error, warn, info, debug, trace]

def name : LogLevel → String
  | error => "ERROR"
  | warn => "WARN"
  | info => "INFO"
  | debug => "DEBUG"
  | trace => "TRACE"

def rank : LogLevel → Nat
  | error => 1
  | warn => 2
  | info => 3
  | debug => 4
  | trace => 5

/-- Lines of level `l` are let through. -/
def shows (threshold l : LogLevel) : Bool := l.rank ≤ threshold.rank

/-- Letters of the ASCII range in upper case, all else as it is. -/
def upper (s : String) : List Char := s.toList.map Char.toUpper

/-- The number that a text of decimal digits stands for, perhaps after a plus sign. -/
def number? (s : String) : Option Nat :=
  let cs := match s.toList with
    | '+' :: cs => cs
    | cs => cs
  if cs.isEmpty || !cs.all Char.isDigit then none
  else some (cs.foldl (fun n c => 10 * n + (c.toNat - '0'.toNat)) 0)

/-- Read a level: its rank, or its name in whatever case. -/
def ofText? (s : String) : Option LogLevel :=
  match number? s with
  | some n => all.find? (·.rank == n)
  | none => all.find? (·.name.toList == upper s)

end LogLevel

/-! ## Layout -/

structure LogLayout where
  showTarget : Bool := true
  showThreadIds : Bool := false
  showFile : Bool := false
  showLineNumber : Bool := false
  json : Bool := false
  deriving DecidableEq, Repr, Inhabited

structure LogConfig where
  level : LogLevel := .info
  layout : LogLayout := {}
  deriving DecidableEq, Repr, Inhabited

namespace LogConfig

/-- Everything that helps while a program is written. -/
def development : LogConfig where
  level := .debug
  layout := { showThreadIds := true, showFile := true, showLineNumber := true }

/-- One record per line, for other programs to read. -/
def production : LogConfig where
  layout := { showTarget := false, json := true }

end LogConfig

/-! ## The section of a configuration -/

structure LogSection where
  level : String := ({} : LogConfig).level.name
  layout : LogLayout := {}
  deriving DecidableEq, Repr, Inhabited

/-- The configuration of the log writer, unless the level is none. -/
def LogSection.toConfig (s : LogSection) : Except ConfigError LogConfig :=
  match LogLevel.ofText? s.level with
  | some level => .ok { level, layout := s.layout }
  | none => .error (.invalid ("无效的日志级别: " ++ s.level))

end Startup
