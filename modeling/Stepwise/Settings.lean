import Stepwise.Input.Lax

/-!
# Settings

The service is set up by named texts; every setting has a default. Settings that cannot be read are
reported together, in the order of the settings.
-/

namespace Stepwise

open Input

/-- The form of log lines. -/
inductive LogForm
  | json
  | text
  deriving DecidableEq

/-- The name of a form. -/
def LogForm.name : LogForm → String
  | .json => "json"
  | .text => "text"

/-- The settings of the service. -/
structure Settings where
  appName : String
  appVersion : String
  apiRoot : String
  environment : String
  debug : Bool
  host : String
  port : Int
  databaseUrl : String
  databaseEcho : Bool
  poolSize : Int
  poolOverflow : Int
  allowedOrigins : String
  allowCredentials : Bool
  keepLogs : Bool
  callTimeout : Double
  maxDepth : Int
  logLevel : String
  logForm : LogForm

namespace Settings

/-- The text that a setting is given, if it is given one. -/
abbrev Given := String → Option String

/-- Reads one setting, or takes its default; an issue is kept with those of other settings. -/
def setting {α : Type} (given : Given) (name : String) (read : String → Except Problem α)
    (default : α) : StateM (List Issue) α := do
  match given name with
  | none => return default
  | some s =>
    match read s with
    | .ok a => return a
    | .error problem =>
      modify (· ++ [⟨problem, [.name name]⟩])
      return default

/-- A setting that is a text. -/
def plain (s : String) : Except Problem String := .ok s

/-- A duration in seconds, which must be positive unless it is no number. -/
def readPositive (s : String) : Except Problem Double := do
  let x ← readDouble s
  if Double.zero.less x || x = .nan then return x else throw (.notAbove 0)

/-- A form of log lines, in any case. -/
def readLogForm (s : String) : Except Problem LogForm :=
  match s.toLower with
  | "json" => .ok .json
  | "text" => .ok .text
  | _ => .error (.badText "LOG_FORMAT must be 'json' or 'text'")

/-- Reads all settings in their order. -/
def read (given : Given) : StateM (List Issue) Settings := do
  let appName ← setting given "APP_NAME" plain "Workflow Automation Runtime"
  let appVersion ← setting given "APP_VERSION" plain "1.0.0"
  let apiRoot ← setting given "API_V1_PREFIX" plain "/api/v1"
  let environment ← setting given "ENVIRONMENT" plain "development"
  let debug ← setting given "DEBUG" readBool false
  let host ← setting given "HOST" plain "0.0.0.0"
  let port ← setting given "PORT" readInt 8000
  let databaseUrl ← setting given "DATABASE_URL" plain "sqlite+aiosqlite:///./workflows.db"
  let databaseEcho ← setting given "SQLALCHEMY_ECHO" readBool false
  let poolSize ← setting given "DB_POOL_SIZE" (readInt · >>= atLeast 1) 10
  let poolOverflow ← setting given "DB_MAX_OVERFLOW" (readInt · >>= atLeast 0) 10
  let allowedOrigins ← setting given "ALLOWED_ORIGINS" plain "http://localhost:3000"
  let allowCredentials ← setting given "ALLOW_CREDENTIALS" readBool true
  let keepLogs ← setting given "PRESERVE_LOGS_ON_FAILURE" readBool false
  let callTimeout ← setting given "WEBHOOK_STEP_TIMEOUT_SECONDS" readPositive (.ofInt 30)
  let maxDepth ← setting given "MAX_STEP_DEPTH" (readInt · >>= atLeast 1) 200
  let logLevel ← setting given "LOG_LEVEL" plain "INFO"
  let logForm ← setting given "LOG_FORMAT" readLogForm .json
  return { appName, appVersion, apiRoot, environment, debug, host, port, databaseUrl, databaseEcho
           poolSize, poolOverflow, allowedOrigins, allowCredentials, keepLogs, callTimeout, maxDepth
           logLevel, logForm }

/-- The settings, or the issues that keep them from being read. -/
def load (given : Given) : Except (List Issue) Settings :=
  match (read given).run [] with
  | (settings, []) => .ok settings
  | (_, issues) => .error issues

/-- The service runs for development. -/
def isDevelopment (s : Settings) : Bool := s.environment == "development"

/-- The service runs in production. -/
def isProduction (s : Settings) : Bool := s.environment == "production"

/-- The origins whose pages may call the service. -/
def origins (s : Settings) : List String :=
  ((s.allowedOrigins.toList.splitOn ',').map Text.trim).filterMap fun origin =>
    if origin.isEmpty then none else some (String.ofList origin)

/-- All settings under their names. -/
def toFields (s : Settings) : Fields :=
  [(.text "APP_NAME", .text s.appName), (.text "APP_VERSION", .text s.appVersion),
    (.text "API_V1_PREFIX", .text s.apiRoot), (.text "ENVIRONMENT", .text s.environment),
    (.text "DEBUG", .bool s.debug), (.text "HOST", .text s.host), (.text "PORT", .int s.port),
    (.text "DATABASE_URL", .text s.databaseUrl), (.text "SQLALCHEMY_ECHO", .bool s.databaseEcho),
    (.text "DB_POOL_SIZE", .int s.poolSize), (.text "DB_MAX_OVERFLOW", .int s.poolOverflow),
    (.text "ALLOWED_ORIGINS", .text s.allowedOrigins),
    (.text "ALLOW_CREDENTIALS", .bool s.allowCredentials),
    (.text "PRESERVE_LOGS_ON_FAILURE", .bool s.keepLogs),
    (.text "WEBHOOK_STEP_TIMEOUT_SECONDS", .double s.callTimeout),
    (.text "MAX_STEP_DEPTH", .int s.maxDepth), (.text "LOG_LEVEL", .text s.logLevel),
    (.text "LOG_FORMAT", .text s.logForm.name)]

end Settings

end Stepwise
