import Unassigned.Json.Basic

/-!
# `LogRecord` — log messages for machines

A record is written as one line of JSON with a numeric level and the time in milliseconds. What the caller
adds to a record comes after the fixed members and may replace them.
-/

namespace Unassigned

/-- An error that a log record is about. -/
structure LoggedError where
  type : Option String := none
  message : Option String := none

/-- A log message with its circumstances. -/
structure LogRecord where
  level : String
  seconds : Int
  message : String
  pid : Int
  /-- What the caller adds. -/
  extra : List (String × Json) := []
  error : Option LoggedError := none

/-- The number of a level; a level without one counts as `INFO`. -/
def logLevelNumber (level : String) : Int :=
  let numbers := [("TRACE", 10), ("DEBUG", 20), ("INFO", 30), ("WARNING", 40), ("ERROR", 50),
    ("CRITICAL", 60)]
  (numbers.lookup level).getD 30

namespace LogRecord

variable (record : LogRecord)

/-- The members of a record, in order; `requestId` is used when the caller gives none. -/
def members (requestId : String) : List (String × Json) :=
  let fixed := [
    ("level", .int (logLevelNumber record.level)),
    ("time", .int (record.seconds * 1000)),
    ("msg", .str record.message),
    ("pid", .int record.pid),
    ("request_id", (record.extra.lookup "request_id").getD (.str requestId))]
  let error := match record.error with
    | none => []
    | some e => [("err", .obj [
        ("type", .str (e.type.getD "Error")), ("message", .str (e.message.getD ""))])]
  Ordered.insertAll fixed
    ((record.extra.filter fun member => member.1 != "request_id") ++ error)

/-- The line that is written for a record. -/
def line (requestId : String) : String :=
  (Json.obj (record.members requestId)).compact ++ "\n"

end LogRecord

end Unassigned
