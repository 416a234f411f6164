import SignalCoach.Record.RuleSet
import SignalCoach.Timestamp

/-! Coaching sessions and the snapshots they are evaluated against. -/
namespace SignalCoach

structure Session where
  id : String
  ruleSetId : Option String
  symbol : String
  timeframeMinutes : Int
  state : SessionState
  startedAt : Timestamp
  lastEvaluatedAt : Option Timestamp
  /-- Attached when the session is loaded. -/
  ruleSet : Option RuleSet

inductive Source where
  | alert | snapshot | heartbeat | manual
deriving DecidableEq

namespace Source

def all : List Source := [.alert, .snapshot, .heartbeat, .manual]

def name : Source → String
  | .alert => "ALERT"
  | .snapshot => "SNAPSHOT"
  | .heartbeat => "HEARTBEAT"
  | .manual => "MANUAL"

def ofName? (s : String) : Option Source := all.find? (·.name = s)

end Source

structure Snapshot where
  id : String
  sessionId : String
  source : Source
  capturedAt : Timestamp
  features : Value
  payload : Value

open Check

namespace Session

/-- A session that does not say when it started started now. -/
def read (now : Timestamp) (v : Value) : Draft Session :=
  Draft.record v fun fields =>
    Session.mk <$> Draft.id fields <*>
      Draft.check (optional string "rule_set_id" fields) <*>
      Draft.check (required string "symbol" fields) <*>
      Draft.check (withDefault int "timeframe_minutes" 1 fields) <*>
      Draft.check (withDefault (enum SessionState.ofName?) "state" .scanning fields) <*>
      Draft.check (withDefault Timestamp.read "started_at" now fields) <*>
      Draft.check (optional Timestamp.read "last_evaluated_at" fields) <*>
      Draft.withDefault (Draft.nullable RuleSet.read) "rule_set" none fields

def document (session : Session) : Value :=
  .object [("id", .str session.id), ("rule_set_id", .ofOption .str session.ruleSetId),
    ("symbol", .str session.symbol), ("timeframe_minutes", .int session.timeframeMinutes),
    ("state", .str session.state.name), ("started_at", session.startedAt.document),
    ("last_evaluated_at", .ofOption Timestamp.document session.lastEvaluatedAt),
    ("rule_set", .ofOption RuleSet.document session.ruleSet)]

end Session

namespace Snapshot

def read (now : Timestamp) (v : Value) : Draft Snapshot :=
  Draft.record v fun fields =>
    Snapshot.mk <$> Draft.id fields <*>
      Draft.check (required string "session_id" fields) <*>
      Draft.check (withDefault (enum Source.ofName?) "source" .snapshot fields) <*>
      Draft.check (withDefault Timestamp.read "captured_at" now fields) <*>
      pure ((fields.get? "features").getD .null) <*>
      pure ((fields.get? "payload").getD .null)

def document (snapshot : Snapshot) : Value :=
  .object [("id", .str snapshot.id), ("session_id", .str snapshot.sessionId),
    ("source", .str snapshot.source.name), ("captured_at", snapshot.capturedAt.document),
    ("features", snapshot.features), ("payload", snapshot.payload)]

end Snapshot

end SignalCoach
