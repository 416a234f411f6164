import SignalCoach.Work

/-! The store of the coach: rule sets with their tags, sessions, snapshots, and what jobs wrote. -/
namespace SignalCoach

structure Store where
  /-- In the order in which they were created. -/
  ruleSets : List RuleSet := []
  /-- Without their rule sets. -/
  sessions : List Session := []
  snapshots : List Snapshot := []
  evaluations : List Evaluation := []
  advice : List AdviceRecord := []

/-- A key as the text that is stored for it. -/
def Key.stored : Key → String
  | .text s => s
  | .null => "null"
  | .bool b => if b then "true" else "false"
  | .int n => toString n
  | .double x =>
    if x.isNaN then "NaN"
    else if x.isFinite then Decimal.display x
    else if x.isNegative then "-Infinity" else "Infinity"

mutual
/-- A document as it comes back from the store: every key is text, and of keys with the same text
the last one decides. -/
def Value.stored : Value → Value
  | .arr items => .arr (Value.storedItems items)
  | .obj fields => .obj ((Value.storedFields fields).foldl (fun done (k, v) => Fields.put done k v) [])
  | .null => .null
  | .bool b => .bool b
  | .int n => .int n
  | .double x => .double x
  | .str s => .str s

def Value.storedItems : List Value → List Value
  | [] => []
  | v :: rest => v.stored :: Value.storedItems rest

def Value.storedFields : List (Key × Value) → Fields
  | [] => []
  | (k, v) :: rest => (.text k.stored, v.stored) :: Value.storedFields rest
end

namespace Store

inductive Refusal where
  /-- Its id, or another value that has to be unique, is there already. -/
  | conflict
  /-- An integer is no signed 64-bit word. -/
  | outOfRange
deriving DecidableEq

def latestVersion (store : Store) (owner : Option String) (name : String) : Option Int :=
  ((store.ruleSets.filter fun set => set.owner = owner ∧ set.name = name).map (·.version)).max?

def tagIds (store : Store) : List String := store.ruleSets.flatMap fun set => set.tags.map (·.id)

/-- The rule set as the next version for its owner and name, its tags tied to it. -/
def versioned (store : Store) (set : RuleSet) : RuleSet :=
  { set with
    version := RuleSet.nextVersion (store.latestVersion set.owner set.name)
    tags := set.tags.map fun tag => { tag with ruleSetId := some set.id } }

def storedRuleSet (set : RuleSet) : RuleSet :=
  { set with
    thresholds := set.thresholds.stored
    tags := set.tags.map fun tag => { tag with rule := tag.rule.stored } }

/-- Takes in a rule set with its tags; the version that it got. -/
def createRuleSet (store : Store) (set : RuleSet) : Except Refusal (RuleSet × Store) :=
  let set := store.versioned set
  let tagIds := set.tags.map (·.id)
  if store.ruleSets.any (·.id = set.id) ∨ ¬ tagIds.Nodup ∨ tagIds.any store.tagIds.contains then
    .error .conflict
  else .ok (set, { store with ruleSets := store.ruleSets ++ [storedRuleSet set] })

def createSession (store : Store) (session : Session) : Except Refusal Store :=
  if !isSignedWord session.timeframeMinutes then .error .outOfRange
  else if store.sessions.any (·.id = session.id) then .error .conflict
  else .ok { store with sessions := store.sessions ++ [{ session with ruleSet := none }] }

def saveSnapshot (store : Store) (snapshot : Snapshot) : Except Refusal Store :=
  if store.snapshots.any (·.id = snapshot.id) then .error .conflict
  else
    let stored := { snapshot with
      features := snapshot.features.stored, payload := snapshot.payload.stored }
    .ok { store with snapshots := store.snapshots ++ [stored] }

def session? (store : Store) (id : String) : Option Session :=
  (store.sessions.find? (·.id = id)).map fun session =>
    { session with
      ruleSet := session.ruleSetId.bind fun id => store.ruleSets.find? (·.id = id) }

def snapshot? (store : Store) (id : String) : Option Snapshot := store.snapshots.find? (·.id = id)

/-- The later of two snapshots; at one time, the second. -/
def laterSnapshot (a : Option Snapshot) (b : Snapshot) : Option Snapshot :=
  match a with
  | some a => if b.capturedAt < a.capturedAt then some a else some b
  | none => some b

/-- The snapshot of a session that was captured last; at one time, the one taken in last. -/
def latestSnapshot? (store : Store) (sessionId : String) : Option Snapshot :=
  (store.snapshots.filter (·.sessionId = sessionId)).foldl laterSnapshot none

def hasEvaluations (store : Store) (jobId : String) : Bool :=
  store.evaluations.any (·.jobId = some jobId)

/-- A score that is no number is refused. -/
def addEvaluation (store : Store) (e : Evaluation) : Except Failure Store :=
  if e.score.isNaN ∨ store.evaluations.any (·.id = e.id) then .error .conflict
  else
    let stored := { e with context := match Value.stored (.obj e.context) with
      | .obj fields => fields
      | _ => [] }
    .ok { store with evaluations := store.evaluations ++ [stored] }

/-- An evaluation has one advice at most. -/
def addAdvice (store : Store) (a : AdviceRecord) : Except Failure Store :=
  if store.advice.any fun other => other.id = a.id ∨ other.evaluationId = a.evaluationId then
    .error .conflict
  else .ok { store with advice := store.advice ++ [a] }

/-- A session that is not there stays away. -/
def updateSession (store : Store) (id : String) (state : SessionState) (at' : Timestamp) : Store :=
  { store with sessions := store.sessions.map fun session =>
      if session.id = id then { session with state, lastEvaluatedAt := some at' } else session }

def apply (store : Store) : Write → Except Failure Store
  | .evaluation record => store.addEvaluation record
  | .advice record => store.addAdvice record
  | .session id state evaluatedAt => .ok (store.updateSession id state evaluatedAt)

def gateway : Gateway Store where
  session? := session?
  snapshot? := snapshot?
  latestSnapshot? := latestSnapshot?
  hasEvaluations := hasEvaluations
  apply write store := store.apply write

/-- Whether an evaluation is listed before another: newest first, and at one time by falling id. -/
def newer (a b : Evaluation) : Bool :=
  b.createdAt < a.createdAt || (a.createdAt = b.createdAt && b.id < a.id)

def history (store : Store) (sessionId : String) : List Evaluation :=
  (store.evaluations.filter (·.sessionId = sessionId)).mergeSort fun a b => !newer b a

def page (limit : Int) (records : List α) : List α :=
  if limit < 0 then records else records.take limit.toNat

/-- A page of the evaluations of a session, newest first: those after the evaluation with the id
`after`. A page after an evaluation that the session does not have is empty. -/
def listEvaluations (store : Store) (sessionId : String) (limit : Int) (after : Option String) :
    List Evaluation :=
  match after with
  | none => page limit (store.history sessionId)
  | some id =>
    match store.evaluations.find? (·.id = id) with
    | none => []
    | some cursor =>
      if cursor.sessionId = sessionId then
        page limit ((store.history sessionId).filter fun e => newer cursor e)
      else []

end Store

end SignalCoach
