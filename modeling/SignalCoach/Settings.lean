import SignalCoach.Check.Scalar
import SignalCoach.Json.Reader
import SignalCoach.Traffic

/-! Settings from the environment. -/
namespace SignalCoach

structure Settings where
  databaseUrl : String := "postgresql://localhost/coach"
  dbPoolSize : Int := 10
  dbMaxOverflow : Int := 10
  redisUrl : String := "redis://localhost:6379/0"
  queuePrefix : String := "coach"
  queueName : String := "coach:evaluator"
  /-- Seconds between two looks at an empty queue. -/
  queuePollInterval : Double := .one
  evaluatorConcurrency : Int := 2
  evaluateMaxAttempts : Int := 3
  evaluateBackoff : Int := 1000
  heartbeatDelay : Int := 5000
  greenDefault : Double := Thresholds.standard.green
  yellowDefault : Double × Double := Thresholds.standard.yellow
  debug : Bool := false

namespace Settings

def names : List String :=
  ["database_url", "db_pool_size", "db_max_overflow", "redis_url", "queue_prefix", "queue_name",
   "queue_poll_interval", "evaluator_concurrency", "evaluate_max_attempts", "evaluate_backoff_ms",
   "heartbeat_delay_ms", "green_default", "yellow_default", "debug"]

inductive Fault where
  /-- A composite setting is no JSON. -/
  | unreadable
  | invalid (issues : List Issue)

/-- The value of a variable; its name is compared without case, and the last one counts. -/
def lookupVariable? (environment : List (String × String)) (name : String) : Option String :=
  ((environment.filter fun entry => entry.1.toLower = name).getLast?).map Prod.snd

def composite? (environment : List (String × String)) (name : String) :
    Except Fault (Option Value) :=
  match lookupVariable? environment name with
  | none => .ok none
  | some text =>
    match Json.read? .lenient text with
    | none => .error .unreadable
    | some .null => .ok none
    | some v => .ok (some v)

def fields (environment : List (String × String)) (yellow : Option Value) : Fields :=
  (environment.foldl (fun done (name, text) => Fields.put done (.text name.toLower) (.str text))
    []).filter (fun entry => entry.1 ≠ .text "yellow_default") ++
    (yellow.toList.map fun v => (.text "yellow_default", v))

def bool : Value → Checked Bool
  | .str s => Check.boolText s
  | .bool b => .valid b
  | _ => .fault .notABoolean

open Check in
def ofFields (fields : Fields) : Checked Settings :=
  let d : Settings := {}
  Settings.mk <$> withDefault string "database_url" d.databaseUrl fields <*>
    withDefault int "db_pool_size" d.dbPoolSize fields <*>
    withDefault int "db_max_overflow" d.dbMaxOverflow fields <*>
    withDefault string "redis_url" d.redisUrl fields <*>
    withDefault string "queue_prefix" d.queuePrefix fields <*>
    withDefault string "queue_name" d.queueName fields <*>
    withDefault double "queue_poll_interval" d.queuePollInterval fields <*>
    withDefault int "evaluator_concurrency" d.evaluatorConcurrency fields <*>
    withDefault int "evaluate_max_attempts" d.evaluateMaxAttempts fields <*>
    withDefault int "evaluate_backoff_ms" d.evaluateBackoff fields <*>
    withDefault int "heartbeat_delay_ms" d.heartbeatDelay fields <*>
    withDefault double "green_default" d.greenDefault fields <*>
    withDefault (pair double) "yellow_default" d.yellowDefault fields <*>
    withDefault bool "debug" d.debug fields

def ofEnvironment (environment : List (String × String)) : Except Fault Settings := do
  let yellow ← composite? environment "yellow_default"
  match ofFields (fields environment yellow) with
  | .valid settings => .ok settings
  | .invalid issues => .error (.invalid issues)

def thresholds (settings : Settings) : Thresholds :=
  { green := settings.greenDefault, yellow := settings.yellowDefault }

def document (s : Settings) : Value :=
  .object [("database_url", .str s.databaseUrl), ("db_pool_size", .int s.dbPoolSize),
    ("db_max_overflow", .int s.dbMaxOverflow), ("redis_url", .str s.redisUrl),
    ("queue_prefix", .str s.queuePrefix), ("queue_name", .str s.queueName),
    ("queue_poll_interval", .double s.queuePollInterval),
    ("evaluator_concurrency", .int s.evaluatorConcurrency),
    ("evaluate_max_attempts", .int s.evaluateMaxAttempts),
    ("evaluate_backoff_ms", .int s.evaluateBackoff), ("heartbeat_delay_ms", .int s.heartbeatDelay),
    ("green_default", .double s.greenDefault),
    ("yellow_default", .arr [.double s.yellowDefault.1, .double s.yellowDefault.2]),
    ("debug", .bool s.debug)]

def isDialectChar (c : Char) : Bool :=
  c.isAlphanum || c = '_' || c = '+' || (0x80 ≤ c.toNat && !Text.isBlank c)

/-- A URL names its dialect before `://`. -/
def isUrl (url : List Char) : Bool :=
  let dialect := url.takeWhile isDialectChar
  !dialect.isEmpty && (url.dropWhile isDialectChar).take 3 = [':', '/', '/']

def plainPostgres : List Char := "postgresql://".toList
def asyncPostgres : List Char := "postgresql+asyncpg://".toList

/-- The URL of the database, with the driver named; the setting stands in for an empty one. None if
it is no URL. -/
def databaseUrlFor (settings : Settings) (url : Option String) : Option String :=
  let url := match url with
    | some "" => settings.databaseUrl.toList
    | some url => url.toList
    | none => settings.databaseUrl.toList
  let url :=
    if url.take plainPostgres.length = plainPostgres then
      asyncPostgres ++ url.drop plainPostgres.length
    else url
  if isUrl url then some (String.ofList url) else none

end Settings

end SignalCoach
