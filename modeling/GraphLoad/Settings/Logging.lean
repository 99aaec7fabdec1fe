/-
Settings of the log: whether debugging is on, which level was asked for and in which format events
are written. What names nothing is taken as not set.
-/
import GraphLoad.Text.Blank
import GraphLoad.Text.Case

namespace GraphLoad

/-- How events are written. -/
inductive LogFormat
  | json
  | pretty
  | compact
deriving DecidableEq

/-- The format that a text names, in any case and between any blanks. -/
def LogFormat.parse? (s : String) : Option LogFormat :=
  let word := Text.lower (Text.trim s)
  if word = "json" then some json
  else if word = "pretty" then some pretty
  else if word = "compact" then some compact
  else none

/-- The levels of events, from the most to the least talkative. -/
inductive LogLevel
  | trace
  | debug
  | info
  | warn
  | error
deriving DecidableEq

namespace LogLevel

/-- The name of a level. -/
def name : LogLevel → String
  | trace => "trace"
  | debug => "debug"
  | info => "info"
  | warn => "warn"
  | error => "error"

/-- The level that a text names, in any case and between any blanks. -/
def parse? (s : String) : Option LogLevel :=
  let word := Text.lower (Text.trim s)
  [trace, debug, info, warn, error].find? (·.name == word)

end LogLevel

/-- Settings of the log. -/
structure LogSettings where
  debug : Bool := false
  level : Option LogLevel := none
  format : LogFormat := .json
deriving DecidableEq

namespace LogSettings

/-- The words that switch debugging on. -/
def switchedOn : List String := ["true", "1", "yes"]

/-- The settings of a look-up of variables. -/
def ofLookup (lookup : String → Option String) : LogSettings where
  debug := ((lookup "WEFT_DEBUG").map fun v => switchedOn.contains (Text.lower v)).getD false
  level := (lookup "WEFT_LOG_LEVEL").bind LogLevel.parse?
  format := ((lookup "WEFT_LOG_FORMAT").bind LogFormat.parse?).getD .json

/-- The level that applies: the one asked for, else that of debugging if it is on, else warnings. -/
def effectiveLevel (s : LogSettings) : LogLevel :=
  s.level.getD (if s.debug then .debug else .warn)

/-- Whether any logging was asked for. -/
def isRequested (s : LogSettings) : Bool := s.debug || s.level.isSome

end LogSettings

end GraphLoad
