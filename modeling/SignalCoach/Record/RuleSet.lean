import SignalCoach.Record.Id
import SignalCoach.SessionState

/-! Rule sets and their tags. -/
namespace SignalCoach

/-- A named signal of a rule set. The rule is kept as it was written. -/
structure Tag where
  id : String
  ruleSetId : Option String
  key : String
  name : String
  severity : Severity
  category : Option String
  description : Option String
  rule : Value

/-- A collection of tags, versioned by owner and name. -/
structure RuleSet where
  id : String
  owner : Option String
  name : String
  version : Int
  summary : Option String
  thresholds : Value
  tags : List Tag

open Check

namespace Tag

def read (v : Value) : Draft Tag :=
  Draft.record v fun fields =>
    Tag.mk <$> Draft.id fields <*>
      Draft.check (optional string "rule_set_id" fields) <*>
      Draft.check (required string "tag_key" fields) <*>
      Draft.check (required string "name" fields) <*>
      Draft.check (withDefault (enum Severity.ofName?) "severity" .info fields) <*>
      Draft.check (optional string "category" fields) <*>
      Draft.check (optional string "description" fields) <*>
      pure ((fields.get? "rule").getD .null)

def document (tag : Tag) : Value :=
  .object [("id", .str tag.id), ("rule_set_id", .ofOption .str tag.ruleSetId),
    ("tag_key", .str tag.key), ("name", .str tag.name), ("severity", .str tag.severity.name),
    ("category", .ofOption .str tag.category), ("description", .ofOption .str tag.description),
    ("rule", tag.rule)]

end Tag

namespace RuleSet

def read (v : Value) : Draft RuleSet :=
  Draft.record v fun fields =>
    RuleSet.mk <$> Draft.id fields <*>
      Draft.check (optional string "owner_id" fields) <*>
      Draft.check (required string "name" fields) <*>
      Draft.check (withDefault int "version" 1 fields) <*>
      Draft.check (optional string "summary" fields) <*>
      pure ((fields.get? "thresholds").getD .null) <*>
      Draft.withDefault (Draft.list Tag.read) "tags" [] fields

def document (set : RuleSet) : Value :=
  .object [("id", .str set.id), ("owner_id", .ofOption .str set.owner), ("name", .str set.name),
    ("version", .int set.version), ("summary", .ofOption .str set.summary),
    ("thresholds", set.thresholds), ("tags", .arr (set.tags.map Tag.document))]

/-- The thresholds of the set, over a fallback. -/
def defaultThresholds (set : RuleSet) (fallback : Thresholds) :
    Except Feature.Overflow Thresholds :=
  Thresholds.ofDocument set.thresholds fallback

def nextVersion (latest : Option Int) : Int := latest.getD 0 + 1

end RuleSet

end SignalCoach
