import SignalCoach.Traffic

/-! The state of a session: the roll-up of a batch of results, and what a single result suggests. -/
namespace SignalCoach

inductive Severity where
  | info | setup | entry | exit
deriving DecidableEq

namespace Severity

def all : List Severity := [.info, .setup, .entry, .exit]

def name : Severity → String
  | .info => "INFO"
  | .setup => "SETUP"
  | .entry => "ENTRY"
  | .exit => "EXIT"

def ofName? (s : String) : Option Severity := all.find? (·.name = s)

def isActionable : Severity → Bool
  | .entry | .setup => true
  | _ => false

end Severity

inductive SessionState where
  | scanning | setupForming | ready | manage
deriving DecidableEq

namespace SessionState

def all : List SessionState := [.scanning, .setupForming, .ready, .manage]

def name : SessionState → String
  | .scanning => "SCANNING"
  | .setupForming => "SETUP_FORMING"
  | .ready => "READY"
  | .manage => "MANAGE"

def ofName? (s : String) : Option SessionState := all.find? (·.name = s)

def suggested (severity : Severity) (status : Status) : SessionState :=
  match status with
  | .green => if severity.isActionable then .ready else .manage
  | .yellow => .setupForming
  | .red => .scanning

/-- A result that makes the session ready whatever follows. -/
def decides (severity : Severity) (status : Status) : Bool :=
  status = .green && severity.isActionable

def rollUp (sawYellow : Bool) : List (Severity × Status) → SessionState
  | [] => if sawYellow then .setupForming else .scanning
  | (severity, status) :: rest =>
    if decides severity status then .ready else rollUp (sawYellow || status = .yellow) rest

/-- Ready if an actionable tag is green, else forming a setup if any is yellow, else scanning. -/
def derive (results : List (Severity × Status)) : SessionState := rollUp false results

/-- The results that the roll-up looks at, checked one after the other: none after the first that
decides. -/
def consumed (severity? : α → Checked Severity) :
    List (α × Status) → Checked (List (Severity × Status))
  | [] => .valid []
  | (tag, status) :: rest =>
    (severity? tag).andThen fun severity =>
      if decides severity status then .valid [(severity, status)]
      else (consumed severity? rest).map ((severity, status) :: ·)

end SessionState

end SignalCoach
