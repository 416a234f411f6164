import SignalCoach.Json.Printer

/-! Documents in running text: a text stands for itself, and inside containers it is quoted. -/
namespace SignalCoach

/-- A single quote around, unless the text has one and no double quote. -/
def quoteMark (s : String) : Char :=
  if s.toList.contains '\'' && !s.toList.contains '"' then '"' else '\''

def escapeQuoted (mark c : Char) : List Char :=
  if c = mark ∨ c = '\\' then ['\\', c]
  else if c = '\n' then ['\\', 'n']
  else if c = '\r' then ['\\', 'r']
  else if c = '\t' then ['\\', 't']
  else if c.toNat < 0x20 ∨ (0x7f ≤ c.toNat ∧ c.toNat ≤ 0xa0) ∨ c.toNat = 0xad then
    '\\' :: 'x' :: Json.hexDigits 2 c.toNat
  else [c]

def quotedText (s : String) : String :=
  let mark := quoteMark s
  String.ofList (mark :: s.toList.flatMap (escapeQuoted mark) ++ [mark])

def Key.quoted : Key → String
  | .text s => quotedText s
  | .null => "None"
  | .bool b => if b then "True" else "False"
  | .int n => toString n
  | .double x => Decimal.display x

mutual
def Value.quoted : Value → String
  | .null => "None"
  | .bool b => if b then "True" else "False"
  | .int n => toString n
  | .double x => Decimal.display x
  | .str s => quotedText s
  | .arr items => "[" ++ Value.quotedItems items ++ "]"
  | .obj fields => "\x7b" ++ Value.quotedFields fields ++ "\x7d"

def Value.quotedItems : List Value → String
  | [] => ""
  | [v] => v.quoted
  | v :: rest => v.quoted ++ ", " ++ Value.quotedItems rest

def Value.quotedFields : List (Key × Value) → String
  | [] => ""
  | [(k, v)] => k.quoted ++ ": " ++ v.quoted
  | (k, v) :: rest => k.quoted ++ ": " ++ v.quoted ++ ", " ++ Value.quotedFields rest
end

def Value.display : Value → String
  | .str s => s
  | v => v.quoted

end SignalCoach
