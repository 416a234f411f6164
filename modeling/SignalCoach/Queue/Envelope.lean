import SignalCoach.Json.Display
import SignalCoach.Json.Reader
import SignalCoach.Record.Id

/-! Envelopes: queued jobs with what is known about their delivery, and the JSON text in which the
queue holds them. -/
namespace SignalCoach

abbrev Entry := List UInt8

structure Envelope where
  name : String
  data : Fields
  id : String
  attempts : Int := 0
  maxAttempts : Int := 1
  /-- Milliseconds before the first retry. -/
  backoff : Int := 0
  /-- Milliseconds since the start of 1970. -/
  enqueuedAt : Int := 0
  /-- Null if no attempt failed. -/
  lastError : Value := .null
  /-- The bytes that the queue holds, by which the envelope is removed. -/
  stored : Option Entry := none

namespace Json

/-- How deep containers may nest in what is written. -/
def maxWrittenDepth : Nat := 254

mutual
/-- Whether a document can be written: its integers are 64-bit words, and its keys are text. -/
def isWritable : Value → Bool
  | .int n => isWord n
  | .arr items => itemsWritable items
  | .obj fields => fieldsWritable fields
  | _ => true

def itemsWritable : List Value → Bool
  | [] => true
  | v :: rest => isWritable v && itemsWritable rest

def fieldsWritable : List (Key × Value) → Bool
  | [] => true
  | (.text _, v) :: rest => isWritable v && fieldsWritable rest
  | _ => false
end

/-- The bytes of a document, none if it cannot be written or nests too deep. -/
def write? (v : Value) : Option (List UInt8) :=
  if isWritable v && v.depth ≤ maxWrittenDepth then some (utf8 (String.ofList (compact v))) else none

end Json

namespace Envelope

def exhausted (e : Envelope) : Bool := e.maxAttempts ≤ e.attempts

/-- The wait before the next attempt: the backoff, doubled for every failure after the first. -/
def retryDelay (e : Envelope) : Int :=
  if e.attempts ≤ 0 then 0 else e.backoff * power 2 (e.attempts - 1)

def failed (e : Envelope) (error : String) : Envelope :=
  { e with attempts := e.attempts + 1, lastError := .str error }

def document (e : Envelope) : Value :=
  .object ([("id", .str e.id), ("name", .str e.name), ("data", .obj e.data),
    ("attempts", .int e.attempts), ("max_attempts", .int e.maxAttempts),
    ("backoff_ms", .int e.backoff), ("enqueued_at", .int e.enqueuedAt)] ++
    match e.lastError with
    | .null => []
    | v => [("last_error", v)])

/-- None if the envelope cannot be written. -/
def encode? (e : Envelope) : Option Entry := Json.write? e.document

inductive Malformed where
  | notJson
  | notObject (v : Value)
  | nameOrData
  | field

def Malformed.message : Malformed → String
  | .notJson => "Invalid JSON"
  | .notObject v => "Envelope must be an object, got " ++ v.kindName
  | .nameOrData => "Envelope missing name or data"
  | .field => "Invalid envelope field"

/-- A counter: a number cut to an integer, or text that writes an integer. -/
def counter? : Value → Option Int
  | .int n => some n
  | .bool b => some (if b then 1 else 0)
  | .double x => x.truncate?
  | .str s => Text.readInt? s
  | _ => none

def counterAt (name : String) (default : Int) (fields : Fields) : Except Malformed Int :=
  match fields.get? name with
  | none => .ok default
  | some v =>
    match counter? v with
    | some n => .ok n
    | none => .error .field

/-- The id of a stored envelope. One without an id gets a new one. -/
def idOf (fields : Fields) (ids : IdSupply) : String × IdSupply :=
  let v := (fields.get? "id").getD .null
  if v.isFalsy then ids.draw else (v.display, ids)

def ofFields (fields : Fields) (name : String) (data : Fields) (id : String) (entry : Entry) :
    Except Malformed Envelope := do
  let attempts ← counterAt "attempts" 0 fields
  let maxAttempts ← counterAt "max_attempts" 1 fields
  let backoff ← counterAt "backoff_ms" 0 fields
  let enqueuedAt ← counterAt "enqueued_at" 0 fields
  pure { name, data, id, attempts, maxAttempts, backoff, enqueuedAt,
         lastError := (fields.get? "last_error").getD .null, stored := some entry }

/-- The envelope that bytes write. An id that was drawn stays drawn when a counter is no number. -/
def decode (entry : Entry) (ids : IdSupply) : Except Malformed Envelope × IdSupply :=
  match Json.readBytes? .strict entry with
  | none => (.error .notJson, ids)
  | some (.obj fields) =>
    match Fields.get? fields "name", Fields.get? fields "data" with
    | some (.str name), some (.obj data) =>
      let (id, ids) := idOf fields ids
      (ofFields fields name data id entry, ids)
    | _, _ => (.error .nameOrData, ids)
  | some v => (.error (.notObject v), ids)

end Envelope

end SignalCoach
