import SignalCoach.Decimal.Text
import SignalCoach.SessionState

/-! What the user is told about one evaluation. -/
namespace SignalCoach

structure Advice where
  state : SessionState
  headline : String
  body : String

namespace Advice

def defaultName : String := "Condition"

def bodyText (satisfied : Bool) (score : Double) : String :=
  if satisfied then "Condition satisfied with score " ++ Decimal.fixed 2 score ++ "."
  else "Conditions not met yet. Monitor inputs."

def build (name : String) (severity : Severity) (status : Status) (satisfied : Bool)
    (score : Double) : Advice where
  state := .suggested severity status
  headline := (if name.isEmpty then defaultName else name) ++ " → " ++ status.name
  body := bodyText satisfied score

end Advice

end SignalCoach
