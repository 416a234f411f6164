import SignalCoach.Advice
import SignalCoach.Record.RuleSet
import SignalCoach.Rule.Holds
import SignalCoach.Rule.Reader
import SignalCoach.Score

/-! A rule set assessed against one snapshot: for every tag whose rule can be read, whether it is
satisfied, its score and its status. -/
namespace SignalCoach

structure TagResult where
  tag : Tag
  satisfied : Bool
  score : Double
  status : Status

namespace TagResult

def context (r : TagResult) : Fields :=
  Fields.ofList [("satisfied", .bool r.satisfied), ("score", .double r.score)]

def advice (r : TagResult) : Advice :=
  .build r.tag.name r.tag.severity r.status r.satisfied r.score

def severityAndStatus (r : TagResult) : Severity × Status := (r.tag.severity, r.status)

end TagResult

namespace Assessment

open Feature

/-- The condition tree, then the score, then the status. -/
def ofRule (tag : Tag) (rule : Rule) (context : Context) (defaults : Thresholds) :
    Except Overflow TagResult := do
  let satisfied ← Rule.Group.holds rule.when context
  let score ← Score.compute rule.score satisfied context
  let thresholds := Thresholds.overridden rule.traffic defaults
  pure { tag, satisfied, score, status := classify score satisfied thresholds }

def ofTag (tag : Tag) (context : Context) (defaults : Thresholds) :
    Except Overflow (Option TagResult) :=
  match Rule.read tag.rule with
  | .ok rule => (ofRule tag rule context defaults).map some
  | .error _ => .ok none

def ofTags (context : Context) (defaults : Thresholds) : List Tag → Except Overflow (List TagResult)
  | [] => .ok []
  | tag :: rest => do
    let result ← ofTag tag context defaults
    let results ← ofTags context defaults rest
    pure (result.toList ++ results)

def sessionState (results : List TagResult) : SessionState :=
  .derive (results.map TagResult.severityAndStatus)

end Assessment

end SignalCoach
