import AbilityRotation.Journal.Context

/-!
The log of the program: which record goes to which file, and how it is written.

A logger is set up with a lowest level.  Records of this level or above are kept; of them `app.log`
takes those from `INFO` on and `error.log` those from `ERROR` on.
* `LogLevel.named` is the level with a name, in any spelling.
* `LogRecord.ofEvent` is the record of an event inside a context.
* `Journal.appLog` and `Journal.errorLog` are the lines of the two files.
-/

namespace AbilityRotation

/-- How important a record is. -/
inductive LogLevel where
  /-- Everything. -/
  | notSet
  /-- Details for the search of faults. -/
  | debug
  /-- The normal course of events. -/
  | info
  /-- Something unexpected. -/
  | warning
  /-- A failure. -/
  | error
  /-- A failure of the program as a whole. -/
  | critical
  deriving DecidableEq, Repr

namespace LogLevel

/-- The rank of a level among the others. -/
def rank : LogLevel → Nat
  | .notSet => 0
  | .debug => 10
  | .info => 20
  | .warning => 30
  | .error => 40
  | .critical => 50

/-- The name of a level. -/
def name : LogLevel → String
  | .notSet => "NOTSET"
  | .debug => "DEBUG"
  | .info => "INFO"
  | .warning => "WARNING"
  | .error => "ERROR"
  | .critical => "CRITICAL"

/-- The capital of a letter of ASCII or of one of the two letters beyond ASCII whose capital is
in ASCII. -/
def capital (c : Char) : Char :=
  if c = 'ı' then 'I' else if c = 'ſ' then 'S' else c.toUpper

/-- The names of levels. -/
def names : List (String × LogLevel) :=
  [("NOTSET", .notSet), ("DEBUG", .debug), ("INFO", .info), ("WARN", .warning),
   ("WARNING", .warning), ("ERROR", .error), ("FATAL", .critical), ("CRITICAL", .critical)]

/-- The level with a name, in any spelling; `info` if there is none. -/
def named (s : String) : LogLevel :=
  (names.lookup (String.ofList (s.toList.map capital))).getD .info

end LogLevel

/-- Fields that a record brings along; a field that is given but has no value is shown as such. -/
structure RecordFields where
  /-- The request. -/
  corrId : Option (Option String) := none
  /-- The rotation. -/
  rotation : Option (Option String) := none
  /-- The action. -/
  action : Option (Option String) := none
  deriving DecidableEq, Repr

/-- The fields of a record: those that it brings along, and those of the context elsewhere. -/
structure RecordContext where
  /-- The request. -/
  corrId : Option String
  /-- The rotation. -/
  rotation : Option String
  /-- The action. -/
  action : Option String
  deriving DecidableEq, Repr

/-- The fields of a record inside a context. -/
def LogContext.fill (c : LogContext) (f : RecordFields) : RecordContext :=
  ⟨f.corrId.getD (some c.corrId), f.rotation.getD (some c.rotation),
    f.action.getD (some c.action)⟩

/-- A record of the log. -/
structure LogRecord where
  /-- How important it is. -/
  level : LogLevel
  /-- The name of the logger. -/
  logger : String
  /-- What it says. -/
  message : String
  /-- Where it belongs. -/
  context : RecordContext
  deriving DecidableEq, Repr

/-- What is logged. -/
inductive LogEvent where
  /-- A message. -/
  | message (level : LogLevel) (logger text : String) (extra : RecordFields)
  /-- The program ends because of a failure. -/
  | mainCrash
  /-- A thread ends because of a failure. -/
  | threadCrash
  deriving DecidableEq, Repr

namespace LogRecord

/-- The name of a logger in its records; the one without a name is the root of all others. -/
def loggerName (logger : String) : String :=
  if logger.isEmpty then "root" else logger

/-- The record of an event inside a context. -/
def ofEvent (c : LogContext) : LogEvent → LogRecord
  | .message level logger text extra => ⟨level, loggerName logger, text, c.fill extra⟩
  | .mainCrash => ⟨.critical, "unhandled", "unhandled exception (main thread)", c.fill {}⟩
  | .threadCrash =>
      ⟨.critical, "unhandled", "unhandled exception (thread)",
        c.fill { action := some (some "thread_excepthook") }⟩

/-- The record of the start of logging. -/
def initialized : LogRecord :=
  ⟨.info, "core.logging_setup", "logging initialized",
    LogContext.fill {} { action := some (some "boot") }⟩

/-- A field as it is written. -/
def fieldText (f : Option String) : String :=
  f.getD "None"

/-- The line of a record. -/
def line (r : LogRecord) : String :=
  r.level.name ++ " " ++ r.logger ++ " corr=" ++ fieldText r.context.corrId ++ " rotation=" ++
    fieldText r.context.rotation ++ " action=" ++ fieldText r.context.action ++ " - " ++ r.message

end LogRecord

/-- The records that a logger keeps. -/
structure Journal where
  /-- The lowest level that is kept. -/
  lowest : LogLevel
  /-- The records, in order. -/
  records : List LogRecord
  deriving DecidableEq, Repr

namespace Journal

/-- The journal of events, each with the context in which it happens. -/
def ofEvents (lowest : LogLevel) (events : List (LogContext × LogEvent)) : Journal :=
  ⟨lowest,
    (LogRecord.initialized :: events.map fun e => LogRecord.ofEvent e.1 e.2).filter
      fun r => decide (lowest.rank ≤ r.level.rank)⟩

/-- The lines of the records from a level on. -/
def linesFrom (j : Journal) (level : LogLevel) : List String :=
  (j.records.filter fun r => decide (level.rank ≤ r.level.rank)).map LogRecord.line

/-- The lines of the file for everything. -/
def appLog (j : Journal) : List String :=
  j.linesFrom .info

/-- The lines of the file for failures. -/
def errorLog (j : Journal) : List String :=
  j.linesFrom .error

end Journal

end AbilityRotation
