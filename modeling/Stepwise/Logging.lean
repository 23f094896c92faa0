import Stepwise.Settings
import Stepwise.Value.Shown

/-!
# Log output

Events are written as lines, in JSON or as text, if their level reaches that of their logger. A
logger without a level of its own takes that of the nearest logger above it that has one, and at
last that of the root. Libraries that talk much are kept quiet.
-/

namespace Stepwise.Logging

/-- The importance of an event. -/
inductive Level
  | debug
  | info
  | warning
  | error
  | critical
  deriving DecidableEq

namespace Level

/-- All levels in their order. -/
def all : List Level := [.debug, .info, .warning, .error, .critical]

/-- The name of a level. -/
def name : Level → String
  | .debug => "debug"
  | .info => "info"
  | .warning => "warning"
  | .error => "error"
  | .critical => "critical"

/-- The number of a level. -/
def number : Level → Nat
  | .debug => 10
  | .info => 20
  | .warning => 30
  | .error => 40
  | .critical => 50

/-- The level of a name; some levels have a second one. -/
def ofName? (name : String) : Option Level :=
  match name with
  | "warn" => some .warning
  | "exception" => some .error
  | "fatal" => some .critical
  | name => all.find? (·.name == name)

end Level

/-- The level of the root that a setting names, in any case; an unknown name means `info`. -/
def rootLevel (setting : String) : Nat :=
  match setting.toLower with
  | "notset" => 0
  | "exception" => Level.info.number
  | name => ((Level.ofName? name).getD .info).number

/-- The loggers that have a level of their own. -/
def ownLevels (settings : Settings) : List (String × Nat) :=
  (["uvicorn.access", "httpx", "httpcore", "aiosqlite"].map (·, Level.warning.number))
    ++ [("sqlalchemy.engine",
      if settings.databaseEcho then Level.info.number else Level.warning.number)]

/-- A logger stands under another one, or is it. -/
def isUnder (logger above : String) : Bool :=
  logger == above || (above ++ ".").toList.isPrefixOf logger.toList

/-- The least level of the events of a logger that are written. -/
def threshold (settings : Settings) (logger : String) : Nat :=
  let above := (ownLevels settings).filter fun (name, _) => isUnder logger name
  match above.mergeSort fun a b => decide (b.1.length ≤ a.1.length) with
  | (_, level) :: _ => level
  | [] => rootLevel settings.logLevel

/-- An event to be written. -/
structure Event where
  logger : String
  level : Level
  text : String
  fields : Fields

/-- Puts values into a text in place of its marks `%s` and `%d`; a doubled `%` stands for one. -/
def format : List Char → List Value → List Char
  | '%' :: '%' :: rest, arguments => '%' :: format rest arguments
  | '%' :: mark :: rest, argument :: arguments =>
    if mark = 's' ∨ mark = 'd' then argument.named.toList ++ format rest arguments
    else '%' :: mark :: format rest (argument :: arguments)
  | c :: rest, arguments => c :: format rest arguments
  | [], _ => []

/-- A text with values put in, if there are any. -/
def message (text : String) (arguments : List Value) : String :=
  if arguments.isEmpty then text else String.ofList (format text.toList arguments)

/-- Lines are written as text. -/
def writesText (settings : Settings) : Bool := settings.logForm = .text || settings.isDevelopment

/-- The event as an object. -/
def Event.toFields (e : Event) : Fields :=
  Fields.merge e.fields [(.text "event", .text e.text), (.text "level", .text e.level.name),
    (.text "logger", .text e.logger)]

/-- A text followed by blanks up to a width. -/
def padRight (width : Nat) (s : List Char) : List Char :=
  s ++ List.replicate (width - s.length) ' '

/-- A value in a line of text: a text stands without quotes unless it holds blanks, quotes or an
equals sign. -/
def shownField : Value → List Char
  | .text s =>
    if s.toList.any fun c => [' ', '\t', '=', '\r', '\n', '"', '\''].contains c then
      Text.quoted s.toList
    else s.toList
  | value => value.shown

/-- The event as a line of text. -/
def Event.line (e : Event) : String :=
  let fields := (e.fields.map fun (k, v) => (Value.named k.toValue, v)).mergeSort
    fun a b => !decide (b.1 < a.1)
  let shown := fields.flatMap fun (name, v) => ' ' :: name.toList ++ '=' :: shownField v
  let body := '[' :: padRight 9 e.level.name.toList ++ ']' :: ' ' :: padRight 30 e.text.toList
    ++ ' ' :: '[' :: e.logger.toList ++ ']' :: shown
  String.ofList (body.reverse.dropWhile (· == ' ')).reverse

/-- The events that are written. -/
def written (settings : Settings) (events : List Event) : List Event :=
  events.filter fun e => decide (threshold settings e.logger ≤ e.level.number)

end Stepwise.Logging
