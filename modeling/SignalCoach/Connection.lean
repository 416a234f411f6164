import SignalCoach.Json.Value

/-! The connection to the queue's server: one pool and one client for the whole process, made on the
first call and given up on close. -/
namespace SignalCoach

/-- How the first message to the server ends. -/
inductive Ping where
  | answered
  | refused
  /-- Any other way: another error of the server, or the wait was given up. -/
  | failed
deriving DecidableEq

structure Connection where
  /-- The pool that is held. Pools are numbered as they are made. -/
  pool : Option Nat := none
  /-- The pool of the client that is handed out. -/
  client : Option Nat := none
  live : List Nat := []
  made : Nat := 0
  closed : Nat := 0
deriving DecidableEq

namespace Connection

def disconnect (pool : Nat) (c : Connection) : Connection :=
  { c with live := c.live.filter (· ≠ pool) }

/-- Connects unless there is a client. A new pool is held before the server has answered, and it is
given up again if the server refuses. The result says whether a client was handed out. -/
def init (ping : Ping) (c : Connection) : Bool × Connection :=
  if c.client.isSome then (true, c)
  else
    let pool := c.made
    let c := { c with pool := some pool, live := pool :: c.live, made := pool + 1 }
    match ping with
    | .answered => (true, { c with client := some pool })
    | .refused => (false, { c.disconnect pool with pool := none })
    | .failed => (false, c)

def closeClient (c : Connection) : Connection :=
  if c.client.isSome then { c with client := none, closed := c.closed + 1 } else c

def close (c : Connection) : Connection :=
  let c := c.closeClient
  match c.pool with
  | some pool => { c.disconnect pool with pool := none }
  | none => c

inductive Health where
  | disconnected
  | connected (version clients memory : Value)
  | failing (message : String)

/-- The health that the server's answer shows; it is not asked without a client. -/
def health (answer : Except String Fields) (c : Connection) : Health :=
  if c.client.isNone then .disconnected
  else
    match answer with
    | .error message => .failing message
    | .ok fields =>
      let entry name := (Fields.get? fields name).getD .null
      .connected (entry "redis_version") (entry "connected_clients") (entry "used_memory_human")

def Health.document : Health → Value
  | .disconnected => .object [("status", .str "disconnected")]
  | .connected version clients memory =>
    .object [("status", .str "connected"), ("redis_version", version),
      ("connected_clients", clients), ("used_memory_human", memory)]
  | .failing message => .object [("status", .str "error"), ("error", .str message)]

end Connection

end SignalCoach
