import ReleaseWeaver.Text.Fragment

/-
  Messages. A run writes to two sinks, one for information and one for errors, and relays each
  message to the log of the process; a message may also go to a sink alone. Silent sinks drop what
  they get, the log of the process does not.
-/

namespace ReleaseWeaver

inductive Level where
  | info
  | error
deriving DecidableEq, Inhabited, Repr

def Level.text : Level → String
  | info => "INFO"
  | error => "ERROR"

structure Message where
  level : Level
  text : String
  /-- Whether the log of the process has it too. -/
  relayed : Bool := true
deriving DecidableEq, Inhabited, Repr

inductive Sinks where
  | collecting
  | silent
deriving DecidableEq, Inhabited, Repr

/-- How sinks show themselves. -/
def Sinks.text : Sinks → String := fun _ => "LogSinks \x7b .. \x7d"

/-- Messages in the order they were written. -/
abbrev Log := List Message

namespace Log

/-- What the sink of a level has collected. -/
def collected (log : Log) (sinks : Sinks) (level : Level) : List String :=
  match sinks with
  | .silent => []
  | .collecting => (log.filter fun m => m.level = level).map Message.text

/-- What the log of the process has received. -/
def relayed (log : Log) : List (Level × String) :=
  (log.filter Message.relayed).map fun m => (m.level, m.text)

/-- Whether an error in the sink holds a fragment. -/
def hasErrorWith (log : Log) (sinks : Sinks) (fragment : String) : Bool :=
  (log.collected sinks .error).any (Text.hasFragment fragment)

end Log

end ReleaseWeaver
