import SignalCoach.Assessment
import SignalCoach.File
import SignalCoach.Json.Printer
import SignalCoach.Settings

/-! A rule set tried out on a snapshot, both from files: a report, and nothing is stored. -/
namespace SignalCoach

structure DryRun where
  ruleSet : RuleSet
  thresholds : Thresholds
  results : List TagResult

namespace DryRun

/-- Assesses every tag; a rule set without thresholds takes those of the settings. -/
def ofRuleSet (settings : Settings) (ruleSet : RuleSet) (features payload : Value) :
    Except Feature.Overflow DryRun := do
  let thresholds ← ruleSet.defaultThresholds settings.thresholds
  let results ← Assessment.ofTags { features, payload } thresholds ruleSet.tags
  pure { ruleSet, thresholds, results }

def state (run : DryRun) : SessionState := Assessment.sessionState run.results

def skipped (run : DryRun) : Nat := run.ruleSet.tags.length - run.results.length

def entry (r : TagResult) : Value :=
  .object [("tag_key", .str r.tag.key), ("severity", .str r.tag.severity.name),
    ("satisfied", .bool r.satisfied), ("score", .double r.score), ("status", .str r.status.name),
    ("advice_state", .str r.advice.state.name), ("headline", .str r.advice.headline),
    ("body", .str r.advice.body)]

def document (run : DryRun) : Value :=
  .object [("rule_set", .str run.ruleSet.name), ("session_state", .str run.state.name),
    ("tags", .arr (run.results.map entry))]

def bar : String := String.ofList (List.replicate 70 '=')

def title (run : DryRun) : String :=
  let t := run.thresholds
  "  " ++ run.ruleSet.name ++ " (green >= " ++ Decimal.display t.green ++ ", yellow " ++
    Decimal.display t.yellow.1 ++ "-" ++ Decimal.display t.yellow.2 ++ ")"

def lines (r : TagResult) : List String :=
  ["  " ++ Text.padRight 7 r.status.name ++ " " ++ Decimal.fixed 2 r.score ++ "  " ++
      Text.padRight 24 r.tag.key ++ " [" ++ r.tag.severity.name ++ "]",
   "          " ++ r.advice.headline ++ ": " ++ r.advice.body]

def text (run : DryRun) : String :=
  let skipped := if run.skipped = 0 then []
    else ["", "  " ++ toString run.skipped ++ " tag(s) skipped (invalid rule)"]
  let lines := ["", bar, run.title, bar] ++ run.results.flatMap lines ++ skipped ++
    ["", "  Session state: " ++ run.state.name, bar]
  String.join (lines.map (· ++ "\n"))

end DryRun

inductive Request where
  | help
  | report (ruleSet snapshot : String) (json : Bool)
deriving DecidableEq

namespace Request

def options : List (List Char) := ["-h".toList, "--help".toList, "--json".toList]

inductive Word where
  | operand
  | option (name : List Char)
  /-- From here on every word is an operand. -/
  | separator
  | refused
  | unknown

/-- Words like `-1` and `-.5` are operands. -/
def isNegativeNumber (digits : List Char) : Bool :=
  let whole := digits.takeWhile Char.isDigit
  match digits.dropWhile Char.isDigit with
  | [] => !whole.isEmpty
  | '.' :: fraction => !fraction.isEmpty && fraction.all Char.isDigit
  | _ => false

/-- The meaning of a word that is no option by itself: the start of a long option stands for it if
there is only one such option, and no option takes a value. -/
def abbreviated (word : List Char) : Word :=
  let name := word.takeWhile (· ≠ '=')
  let candidates := options.filter fun o => name.isPrefixOf o
  match word with
  | '-' :: '-' :: _ =>
    match candidates with
    | [o] => if name.length < word.length then .refused else .option o
    | [] => plain word
    | _ => .refused
  | '-' :: 'h' :: _ => if word.tail.all (· = 'h') then .option "-h".toList else .refused
  | word => plain word
where
  plain (word : List Char) : Word :=
    if isNegativeNumber word.tail then .operand
    else if word.contains ' ' then .operand
    else .unknown

def classify (word : String) : Word :=
  match word.toList with
  | [] => .operand
  | ['-'] => .operand
  | ['-', '-'] => .separator
  | '-' :: rest =>
    if options.contains ('-' :: rest) then .option ('-' :: rest) else abbreviated ('-' :: rest)
  | _ => .operand

structure Found where
  operands : List String := []
  json : Bool := false
  unknown : Bool := false

def finish (found : Found) : Option Request :=
  match found.operands.reverse, found.unknown with
  | [ruleSet, snapshot], false => some (.report ruleSet snapshot found.json)
  | _, _ => none

def read : Found → List String → Option Request
  | found, [] => finish found
  | found, word :: rest =>
    match classify word with
    | .operand => read { found with operands := word :: found.operands } rest
    | .separator => finish { found with operands := rest.reverse ++ found.operands }
    | .refused => none
    | .unknown => read { found with unknown := true } rest
    | .option name =>
      if name = "--json".toList then read { found with json := true } rest else some .help

def ofArguments (arguments : List String) : Option Request := read {} arguments

end Request

namespace DryRun

inductive Printed where
  | text (s : String)
  | document (v : Value)

structure Exit where
  code : Nat
  printed : Printed

inductive Fault where
  | settings (fault : Settings.Fault)
  | overflow (overflow : Feature.Overflow)
  /-- A file has a code in it that is no character. -/
  | noCharacter (code : Nat)

/-- What a call for help prints; the program is called by a name. -/
def help (program : String) : String := String.join <| List.map (· ++ "\n")
  ["usage: " ++ program ++ " [-h] [--json] rule_set snapshot",
   "",
   "Evaluate a coach rule set against a snapshot (no database)",
   "",
   "positional arguments:",
   "  rule_set    Rule-set file (YAML or JSON)",
   "  snapshot    Snapshot file: features, or \x7bfeatures, payload\x7d",
   "",
   "options:",
   "  -h, --help  show this help message and exit",
   "  --json      Print machine-readable JSON"]

def load (files : String → Option String) (ruleSet snapshot : String) :
    Except FileFault (RuleSet × Value × Value) := do
  let (set, _) ← RuleSet.ofFile (files ruleSet) {}
  let (features, payload) ← snapshotOfFile (files snapshot)
  pure (set, features, payload)

/-- Files that cannot be used end the run before the settings are read. A code that is no character is
not expected. -/
def report (files : String → Option String) (environment : List (String × String))
    (ruleSet snapshot : String) (json : Bool) : Except Fault Exit :=
  match load files ruleSet snapshot with
  | .error (.noCharacter code) => .error (.noCharacter code)
  | .error _ => .ok { code := 1, printed := .text "" }
  | .ok (set, features, payload) =>
    match Settings.ofEnvironment environment with
    | .error fault => .error (.settings fault)
    | .ok settings =>
      match ofRuleSet settings set features payload with
      | .error overflow => .error (.overflow overflow)
      | .ok run =>
        .ok { code := 0, printed := if json then .document run.document else .text run.text }

/-- The command line: what is printed, and the exit code, which is 2 for a call that is not proper
and 1 for files that cannot be used. -/
def command (program : String) (files : String → Option String)
    (environment : List (String × String)) (arguments : List String) : Except Fault Exit :=
  match Request.ofArguments arguments with
  | none => .ok { code := 2, printed := .text "" }
  | some .help => .ok { code := 0, printed := .text (help program) }
  | some (.report ruleSet snapshot json) => report files environment ruleSet snapshot json

def Printed.render : Printed → String
  | .text s => s
  | .document v => String.ofList (Json.pretty 0 v) ++ "\n"

end DryRun

end SignalCoach
