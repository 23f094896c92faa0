import Stepwise.Settings
import Stepwise.Text.Percent
import Stepwise.Text.Quoted

/-!
# Database addresses

An address names a dialect, perhaps a driver, perhaps a user with a password, a host with a port,
a database and parameters. It is shown without the password. Databases behind a server are used
through a pool of connections, which has the sizes that are set.
-/

namespace Stepwise

/-- The parts of a database address. -/
structure DatabaseUrl where
  /-- The dialect, and the driver after a plus sign. -/
  scheme : String
  user : Option String
  password : Option String
  host : Option String
  port : Option Int
  database : Option String
  parameters : List (String × String)

namespace DatabaseUrl

/-- Why a database cannot be connected to. -/
inductive Refusal
  | unreadable
  | badPort (text : String)
  | unknownDialect (scheme : String)
  /-- The driver is not at hand. -/
  | missingDriver (package : String)
  /-- The driver cannot be used from a service that serves several requests at once. -/
  | blockingDriver (driver : String)

/-- The wording of a refusal. -/
def Refusal.message : Refusal → String
  | .unreadable => "Could not parse SQLAlchemy URL from given URL string"
  | .badPort text =>
    "invalid literal for int() with base 10: " ++ String.ofList (Text.quoted text.toList)
  | .unknownDialect scheme =>
    "Can't load plugin: sqlalchemy.dialects:"
      ++ String.ofList (scheme.toList.map fun c => if c = '+' then '.' else c)
  | .missingDriver package => "No module named '" ++ package ++ "'"
  | .blockingDriver driver =>
    "The asyncio extension requires an async driver to be used. The loaded '" ++ driver
      ++ "' is not async."

/-! ## Reading -/

/-- A character that may stand in the name of a dialect and driver. -/
def inScheme (c : Char) : Bool := c.isAlphanum || c == '_' || c == '+'

/-- A character that ends the host and the port. -/
def endsServer (c : Char) : Bool := c == '/' || c == '?'

/-- The part before the last occurrence of a character, and the part after it. -/
def splitAtLast? (c : Char) (s : List Char) : Option (List Char × List Char) :=
  if s.contains c then
    let after := (s.reverse.takeWhile (· != c)).reverse
    some (s.take (s.length - after.length - 1), after)
  else none

/-- The text that escapes stand for. -/
def unescape (s : List Char) : String := Text.decodeAddress (String.ofList s)

/-- The user and the password before an at sign, and what follows it. -/
def takeLogin (s : List Char) : Option String × Option String × List Char :=
  let user := s.takeWhile fun c => c != ':' && c != '/'
  let withPassword := match s.drop user.length with
    | ':' :: body =>
      match body.dropWhile (· != '@') with
      | '@' :: rest => some (body.takeWhile (· != '@'), rest)
      | _ => none
    | _ => none
  match withPassword with
  | some (password, rest) => (some (unescape user), some (unescape password), rest)
  | none =>
    match splitAtLast? '@' user with
    | some (user, rest) =>
      (some (unescape user), none, rest ++ s.drop (user.length + 1 + rest.length))
    | none => (none, none, s)

/-- The host, which may stand in brackets, and what follows it. -/
def takeHost (s : List Char) : Option String × List Char :=
  let plain :=
    let host := s.takeWhile fun c => !endsServer c && c != ':'
    (if host.isEmpty then none else some (String.ofList host), s.drop host.length)
  match s with
  | '[' :: body =>
    match splitAtLast? ']' (body.takeWhile (!endsServer ·)) with
    | some (host, rest) =>
      (some (String.ofList host), rest ++ body.dropWhile (!endsServer ·))
    | none => plain
  | _ => plain

/-- The text of the port after a colon, and what follows it. -/
def takePort : List Char → List Char × List Char
  | ':' :: s => (s.takeWhile (!endsServer ·), s.dropWhile (!endsServer ·))
  | s => ([], s)

/-- The name of the database after a slash, and what follows it. -/
def takeDatabase : List Char → Option String × List Char
  | '/' :: s => (some (String.ofList (s.takeWhile (· != '?'))), s.dropWhile (· != '?'))
  | s => (none, s)

/-- The text of a parameter, in which a plus sign stands for a blank. -/
def unescapeParameter (s : List Char) : String :=
  unescape (s.map fun c => if c = '+' then ' ' else c)

/-- The parameters after a question mark; one without a value is left out. -/
def readParameters : List Char → List (String × String)
  | '?' :: s => (s.splitOn '&').filterMap fun parameter =>
    match parameter.dropWhile (· != '=') with
    | '=' :: value =>
      if value.isEmpty then none
      else some (unescapeParameter (parameter.takeWhile (· != '=')), unescapeParameter value)
    | _ => none
  | _ => []

/-- Reads an address. -/
def read (s : String) : Except Refusal DatabaseUrl := do
  let scheme := s.toList.takeWhile inScheme
  match scheme, s.toList.drop scheme.length with
  | _ :: _, ':' :: '/' :: '/' :: body =>
    let (user, password, body) := takeLogin body
    let (host, body) := takeHost body
    let (port, body) := takePort body
    let (database, body) := takeDatabase body
    let port ← if port.isEmpty then pure none
      else match (String.ofList port).toInt? with
        | some port => pure (some port)
        | none => throw (.badPort (String.ofList port))
    return { scheme := String.ofList scheme, user, password, host, port, database
             parameters := readParameters body }
  | _, _ => throw .unreadable

/-! ## Showing -/

/-- The parameters after a question mark, in the order of their names. -/
def shownParameters (u : DatabaseUrl) : String :=
  if u.parameters.isEmpty then ""
  else
    "?" ++ Text.encodeParameters (u.parameters.mergeSort fun a b => decide (a.1 ≤ b.1))

/-- The user with the password hidden. -/
def shownLogin (u : DatabaseUrl) : String :=
  match u.user with
  | none => ""
  | some user =>
    String.ofList
        (Text.escape (fun c => Text.isPlainInParameter c || c = ' ' || c = '+') user.toList)
      ++ (if u.password.isSome then ":***" else "") ++ "@"

/-- The host; one with a colon stands in brackets. -/
def shownHost (u : DatabaseUrl) : String :=
  match u.host with
  | none => ""
  | some host => if host.toList.contains ':' then "[" ++ host ++ "]" else host

/-- The address with its password hidden. -/
def shown (u : DatabaseUrl) : String :=
  u.scheme ++ "://" ++ u.shownLogin ++ u.shownHost
    ++ (match u.port with
      | some port => ":" ++ toString port
      | none => "")
    ++ (match u.database with
      | some database => "/" ++ database
      | none => "")
    ++ u.shownParameters

/-! ## Connecting -/

/-- The dialects with their drivers and the packages of these; the first driver of a dialect is used
where none is named. -/
def drivers : List (String × String × String) := [
  ("sqlite", "pysqlite", "sqlite3"), ("sqlite", "aiosqlite", "aiosqlite"),
  ("postgresql", "psycopg2", "psycopg2"), ("postgresql", "asyncpg", "asyncpg"),
  ("postgresql", "psycopg", "psycopg"), ("postgresql", "pg8000", "pg8000"),
  ("mysql", "mysqldb", "MySQLdb"), ("mysql", "pymysql", "pymysql"),
  ("mysql", "aiomysql", "aiomysql"), ("mysql", "asyncmy", "asyncmy")]

/-- The name of the dialect. -/
def dialect (u : DatabaseUrl) : String := String.ofList (u.scheme.toList.takeWhile (· != '+'))

/-- The driver with its package. -/
def driver? (u : DatabaseUrl) : Option (String × String) :=
  let ofDialect := (drivers.filter (·.1 == u.dialect)).map (·.2)
  match u.scheme.toList.dropWhile (· != '+') with
  | '+' :: name => ofDialect.find? (·.1 == String.ofList name)
  | _ => ofDialect.head?

/-- How a database is connected to. -/
structure Connection where
  url : DatabaseUrl
  driver : String
  echo : Bool
  /-- The size of the pool and its overflow, for a database behind a server. -/
  pool : Option (Int × Int)

/-- The connection for an address, or for the address that is set if none is given. -/
def connect (settings : Settings) (url : Option String) : Except Refusal Connection := do
  let address := match url with
    | some s => if s.isEmpty then settings.databaseUrl else s
    | none => settings.databaseUrl
  let u ← read address
  match u.driver? with
  | none => throw (.unknownDialect u.scheme)
  | some (driver, package) =>
    if driver == "pysqlite" then throw (.blockingDriver driver)
    else if driver != "aiosqlite" && driver != "asyncpg" then throw (.missingDriver package)
    else
      let behindServer := !"sqlite".toList.isPrefixOf address.toList
      return { url := u, driver, echo := settings.databaseEcho
               pool := if behindServer then some (settings.poolSize, settings.poolOverflow)
                 else none }

/-- Whether the database of a connection can be opened, where only files in the given directories
can: it is kept in memory or in such a file. -/
def Connection.isReachable (c : Connection) (directories : List String) : Bool :=
  let file := (c.url.database.getD "").toList
  let directory := (file.reverse.dropWhile (· != '/')).reverse
  let directory := if directory = ['/'] then directory else directory.dropLast
  c.driver == "aiosqlite"
    && (file.isEmpty || file == ":memory:".toList || directories.contains (String.ofList directory))

end DatabaseUrl

end Stepwise
