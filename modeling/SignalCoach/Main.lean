import SignalCoach.DryRun

/-! The command line: a rule set is tried out on a snapshot, and the report is printed. -/
namespace SignalCoach

def textOfFile (path : String) : IO (Option String) := do
  try
    pure (some (← IO.FS.readFile path))
  catch _ => pure none

def filesOf : Option Request → IO (List (String × Option String))
  | some (.report ruleSet snapshot _) => do
    pure [(ruleSet, ← textOfFile ruleSet), (snapshot, ← textOfFile snapshot)]
  | _ => pure []

/-- The variables of the environment that are settings, in small or in capital letters. -/
def settingsEnvironment : IO (List (String × String)) := do
  let names := Settings.names ++ Settings.names.map String.toUpper
  let values ← names.mapM fun name => do pure ((← IO.getEnv name).map fun value => (name, value))
  pure (values.filterMap id)

def programName : String := "signalcoach"

def complain : Nat → IO Unit
  | 0 => pure ()
  | 1 => IO.eprintln "Error: the files cannot be used"
  | _ => IO.eprintln ("usage: " ++ programName ++ " [-h] [--json] rule_set snapshot")

end SignalCoach

open SignalCoach in
def main (arguments : List String) : IO UInt32 := do
  let files ← filesOf (Request.ofArguments arguments)
  let file path := ((files.find? fun entry => entry.1 = path).map Prod.snd).getD none
  match DryRun.command programName file (← settingsEnvironment) arguments with
  | .ok exit =>
    complain exit.code
    IO.print exit.printed.render
    pure (UInt32.ofNat exit.code)
  | .error _ =>
    IO.eprintln "Error: the settings or the numbers of the files cannot be used"
    pure 1
