import SignalCoach.Decimal.Text
import SignalCoach.Json.Value

/-! JSON text of documents. -/
namespace SignalCoach.Json

/-- Doubles in JSON: positional from 0.00001 to 10¹⁶, exponents without plus or padding. -/
def layout : Decimal.Layout := { lowest := -5, highest := 16, wideExponent := false }

def hexDigits (width n : Nat) : List Char :=
  let ds := Nat.toDigits 16 n
  List.replicate (width - ds.length) '0' ++ ds

def escape (c : Char) : List Char :=
  match c with
  | '"' => ['\\', '"']
  | '\\' => ['\\', '\\']
  | '\x08' => ['\\', 'b']
  | '\x0c' => ['\\', 'f']
  | '\n' => ['\\', 'n']
  | '\r' => ['\\', 'r']
  | '\t' => ['\\', 't']
  | c => if c.toNat < 0x20 then '\\' :: 'u' :: hexDigits 4 c.toNat else [c]

def quote (s : String) : List Char := '"' :: s.toList.flatMap escape ++ ['"']

/-- Numbers that are not finite have no form of their own and become null. -/
def doubleText (x : Double) : List Char :=
  if x.isFinite then (layout.write x).toList else "null".toList

def intText (n : Int) : List Char := (toString n).toList

def keyText : Key → String
  | .text s => s
  | .null => "null"
  | .bool b => if b then "true" else "false"
  | .int n => toString n
  | .double x => String.ofList (doubleText x)

mutual
/-- Without blanks. -/
def compact : Value → List Char
  | .null => "null".toList
  | .bool b => (if b then "true" else "false").toList
  | .int n => intText n
  | .double x => doubleText x
  | .str s => quote s
  | .arr items => '[' :: compactItems items ++ [']']
  | .obj fields => '{' :: compactFields fields ++ ['}']

def compactItems : List Value → List Char
  | [] => []
  | [v] => compact v
  | v :: rest => compact v ++ ',' :: compactItems rest

def compactFields : List (Key × Value) → List Char
  | [] => []
  | [(k, v)] => quote (keyText k) ++ ':' :: compact v
  | (k, v) :: rest => quote (keyText k) ++ ':' :: compact v ++ ',' :: compactFields rest
end

def indent (level : Nat) : List Char := '\n' :: List.replicate (2 * level) ' '

mutual
/-- One element a line, two blanks a level. -/
def pretty (level : Nat) : Value → List Char
  | .arr (v :: rest) =>
    '[' :: prettyItems (level + 1) (v :: rest) ++ indent level ++ [']']
  | .obj (entry :: rest) =>
    '{' :: prettyFields (level + 1) (entry :: rest) ++ indent level ++ ['}']
  | .arr [] => ['[', ']']
  | .obj [] => ['{', '}']
  | .null => compact .null
  | .bool b => compact (.bool b)
  | .int n => compact (.int n)
  | .double x => compact (.double x)
  | .str s => compact (.str s)

def prettyItems (level : Nat) : List Value → List Char
  | [] => []
  | [v] => indent level ++ pretty level v
  | v :: rest => indent level ++ pretty level v ++ ',' :: prettyItems level rest

def prettyFields (level : Nat) : List (Key × Value) → List Char
  | [] => []
  | [(k, v)] => indent level ++ quote (keyText k) ++ ':' :: ' ' :: pretty level v
  | (k, v) :: rest =>
    indent level ++ quote (keyText k) ++ ':' :: ' ' :: pretty level v ++
      ',' :: prettyFields level rest
end

end SignalCoach.Json
