/-!
# Log lines

What a run reports beside its output: a level, the part of the program that reports, and a message.

* `LogLine`: a line;
* `LogStyle.render`: a line as text, plain or with terminal colours.
-/

namespace PeerIdentity

/-- How important a log line is. -/
inductive LogLevel where
  | debug
  | info
  | error
  deriving DecidableEq, Repr

namespace LogLevel

/-- The level in upper case. -/
def name : LogLevel → String
  | debug => "DEBUG"
  | info => "INFO"
  | error => "ERROR"

/-- The level in lower case, in seven columns. -/
def tag : LogLevel → String
  | debug => "debug  "
  | info => "info   "
  | error => "error  "

/-- The terminal colour of the level. -/
def color : LogLevel → String
  | debug => "\x1b[36m"
  | info => "\x1b[32m"
  | error => "\x1b[31m"

end LogLevel

/-- The part of the program that reports. -/
inductive LogSource where
  | commandLine
  | keypair
  | publicKey
  deriving DecidableEq, Repr

/-- The name under which a part reports. -/
def LogSource.name : LogSource → String
  | commandLine => "libp2p_identity_pqc.__main__"
  | keypair => "libp2p_identity_pqc.keypair"
  | publicKey => "libp2p_identity_pqc.public_key"

/-- A log line. -/
structure LogLine where
  level : LogLevel
  source : LogSource
  message : String
  deriving DecidableEq, Repr

/-- How log lines are shown. -/
structure LogStyle where
  /-- Whether lines that only help to find faults are shown. -/
  verbose : Bool := false
  /-- Whether terminal colours are used. -/
  colored : Bool := true
  deriving DecidableEq, Repr

namespace LogStyle

/-- A line with its end: the level, the source and the message. With colours the level is tinted and
the source is dim. -/
def renderLine (style : LogStyle) (line : LogLine) : String :=
  if style.colored then
    line.level.color ++ line.level.tag ++ "\x1b[0m \x1b[2m" ++ line.source.name ++ "\x1b[0m " ++
      line.message ++ "\n"
  else s!"{line.level.name} {line.source.name}: {line.message}\n"

/-- The lines that are shown. -/
def render (style : LogStyle) (lines : List LogLine) : String :=
  String.join
    ((lines.filter fun line => style.verbose || line.level ≠ .debug).map style.renderLine)

end LogStyle

end PeerIdentity
