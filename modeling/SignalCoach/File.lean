import SignalCoach.Record.RuleSet
import SignalCoach.Yaml.Document

/-! Rule sets and snapshots from files. -/
namespace SignalCoach

inductive FileFault where
  | missing
  | malformed
  | noCharacter (code : Nat)
  | invalid (issues : List Issue)

def readFile (text : Option String) : Except FileFault Value :=
  match text with
  | none => .error .missing
  | some text =>
    match Yaml.read text with
    | .ok v => .ok v
    | .error .malformed => .error .malformed
    | .error (.noCharacter code) => .error (.noCharacter code)

open Check

structure TagEntry where
  key : String
  name : Option String
  severity : Severity
  category : Option String
  description : Option String
  rule : Value

namespace TagEntry

def read (v : Value) : Checked TagEntry :=
  record v fun fields =>
    TagEntry.mk <$> required string (spelling "tagKey" "tag_key" fields) fields <*>
      optional string "name" fields <*>
      withDefault (enum Severity.ofName?) "severity" .info fields <*>
      optional string "category" fields <*> optional string "description" fields <*>
      .valid ((fields.get? "rule").getD .null)

/-- A tag without a name is called by its key. -/
def tag (entry : TagEntry) (id : String) : Tag where
  id
  ruleSetId := none
  key := entry.key
  name := match entry.name with
    | some "" => entry.key
    | some name => name
    | none => entry.key
  severity := entry.severity
  category := entry.category
  description := entry.description
  rule := entry.rule

end TagEntry

structure RuleSetEntry where
  name : String
  owner : Option String
  summary : Option String
  thresholds : Option Fields
  tags : List TagEntry

namespace RuleSetEntry

def repeatedKeys (entry : RuleSetEntry) : List String :=
  let keys := entry.tags.map (·.key)
  (keys.filter fun k => 1 < keys.count k).eraseDups.mergeSort fun a b => a ≤ b

def checkKeys (entry : RuleSetEntry) : Checked RuleSetEntry :=
  match entry.repeatedKeys with
  | [] => .valid entry
  | keys => .fault (.rule ("Value error, duplicate tag_key values: " ++ ", ".intercalate keys))

def read (v : Value) : Checked RuleSetEntry :=
  (record v fun fields =>
    RuleSetEntry.mk <$> required string "name" fields <*> optional string "owner_id" fields <*>
      optional string "summary" fields <*> optional textKeyed "thresholds" fields <*>
      withDefault (list TagEntry.read) "tags" [] fields).andThen checkKeys

def drawTags (entries : List TagEntry) (ids : IdSupply) : List Tag × IdSupply :=
  match entries with
  | [] => ([], ids)
  | entry :: rest =>
    let (id, ids) := ids.draw
    let (more, ids) := drawTags rest ids
    (entry.tag id :: more, ids)

/-- The rule set with new ids, for the tags first. -/
def ruleSet (entry : RuleSetEntry) (ids : IdSupply) : RuleSet × IdSupply :=
  let (tags, ids) := drawTags entry.tags ids
  let (id, ids) := ids.draw
  ({ id, owner := entry.owner, name := entry.name, version := 1, summary := entry.summary,
     thresholds := .ofOption .obj entry.thresholds, tags }, ids)

end RuleSetEntry

namespace RuleSet

def ofEntry (v : Value) (ids : IdSupply) : Except FileFault (RuleSet × IdSupply) :=
  match RuleSetEntry.read v with
  | .valid entry => .ok (entry.ruleSet ids)
  | .invalid issues => .error (.invalid issues)

/-- The rule set of a file. A file that holds nothing counts as an empty mapping. -/
def ofFile (text : Option String) (ids : IdSupply) : Except FileFault (RuleSet × IdSupply) := do
  let v ← readFile text
  ofEntry (if v.isFalsy then .obj [] else v) ids

end RuleSet

/-- Features and payload of a snapshot file. A mapping with features may have a payload beside them;
any other document is features as a whole. -/
def snapshotOfFile (text : Option String) : Except FileFault (Value × Value) := do
  let v ← readFile text
  match v with
  | .obj fields =>
    match Fields.get? fields "features" with
    | some features => pure (features, (Fields.get? fields "payload").getD .null)
    | none => pure (v, .null)
  | v => pure (v, .null)

end SignalCoach
