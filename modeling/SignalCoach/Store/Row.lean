import SignalCoach.Record.Evaluation

/-! Records from the rows of the store's tables. Members of enumerations are read first. -/
namespace SignalCoach

namespace Row

inductive Fault where
  /-- A column that holds a member of an enumeration holds something else. -/
  | unknownMember
  | invalid (issues : List Issue)

def read (ofName? : String → Option α) (column : String) (reader : Value → Draft β) (row : Value) :
    Except Fault β :=
  match (Check.enum ofName? (row.member column)), (reader row {}).1 with
  | .invalid _, _ => .error .unknownMember
  | .valid _, .invalid issues => .error (.invalid issues)
  | .valid _, .valid record => .ok record

def withColumns (entries : List (String × Value)) : Value → Value
  | .obj fields => .obj (entries.foldl (fun fields (k, v) => Fields.put fields (.text k) v) fields)
  | v => v

def tag (row : Value) : Except Fault Tag := read Severity.ofName? "severity" Tag.read row

def session (now : Timestamp) (row : Value) : Except Fault Session :=
  read SessionState.ofName? "state" (Session.read now) (withColumns [("rule_set", .null)] row)

def snapshot (now : Timestamp) (row : Value) : Except Fault Snapshot :=
  read Source.ofName? "source" (Snapshot.read now) row

/-- A context that is empty or null is empty. -/
def evaluation (now : Timestamp) (row : Value) : Except Fault Evaluation :=
  let context := row.member "context"
  let context := if context.isFalsy then .obj [] else context
  read Status.ofName? "status" (Evaluation.read now) (withColumns [("context", context)] row)

/-- A rule set by itself, without its tags. -/
def ruleSet (row : Value) : Except Fault RuleSet :=
  match (RuleSet.read (withColumns [("tags", .arr [])] row) {}).1 with
  | .valid set => .ok set
  | .invalid issues => .error (.invalid issues)

end Row

end SignalCoach
