import SignalCoach.Yaml.Token
import SignalCoach.Yaml.Word

/-! Values from the tokens of a file. -/
namespace SignalCoach.Yaml

/-- A value as the key of a mapping; containers are no keys. -/
def keyOf? : Value → Option Key
  | .str s => some (.text s)
  | .null => some .null
  | .bool b => some (.bool b)
  | .int n => some (.int n)
  | .double x => some (.double x)
  | .arr _ => none
  | .obj _ => none

/-- Adds a member; the last value of a key counts. -/
def member? (done : Fields) (k v : Value) : Option Fields :=
  (keyOf? k).map fun k => done.put k v

inductive Position where
  | flow
  | block
  /-- After a key or a colon, where a sequence needs no indentation. -/
  | member
deriving DecidableEq

abbrev Parsed := Option (Value × List Token)

/-- Whether the tokens begin with one of some tokens, or have ended. -/
def endsBefore (ends : List Token) : List Token → Bool
  | [] => true
  | t :: _ => ends.contains t

/-- A comma, or nothing before the first element. -/
def takeComma? (first : Bool) : List Token → Option (List Token)
  | .comma :: rest => if first then none else some rest
  | rest => if first then some rest else none

mutual
def node (fuel : Nat) (position : Position) (tokens : List Token) : Parsed :=
  match fuel with
  | 0 => none
  | fuel + 1 =>
    match tokens with
    | .scalar text false :: rest => some (.str (String.ofList text), rest)
    | .scalar text true :: rest => (wordValue? text).map (·, rest)
    | .uncharted _ :: rest => some (.null, rest)
    | .openList :: rest => flowItems fuel true [] rest
    | .openObject :: rest => flowMembers fuel true [] rest
    | .sequenceStart :: rest => if position = .flow then none else blockItems fuel [] rest
    | .mappingStart :: rest => if position = .flow then none else blockMembers fuel [] rest
    | .entry :: rest => if position = .member then looseItems fuel [] (.entry :: rest) else none
    | _ => none

/-- A value, or null if one of some tokens follows. -/
def nodeOrNull (fuel : Nat) (position : Position) (ends : List Token) (tokens : List Token) :
    Parsed :=
  match fuel with
  | 0 => none
  | fuel + 1 =>
    if endsBefore ends tokens then some (.null, tokens) else node fuel position tokens

def blockItems (fuel : Nat) (rev : List Value) (tokens : List Token) : Parsed :=
  match fuel with
  | 0 => none
  | fuel + 1 =>
    match tokens with
    | .entry :: rest => do
      let (v, rest) ← nodeOrNull fuel .block [.entry, .blockEnd] rest
      blockItems fuel (v :: rev) rest
    | .blockEnd :: rest => some (.arr rev.reverse, rest)
    | _ => none

/-- Entries that are indented no deeper than their key. -/
def looseItems (fuel : Nat) (rev : List Value) (tokens : List Token) : Parsed :=
  match fuel with
  | 0 => none
  | fuel + 1 =>
    match tokens with
    | .entry :: rest => do
      let (v, rest) ← nodeOrNull fuel .block [.entry, .key, .value, .blockEnd] rest
      looseItems fuel (v :: rev) rest
    | rest => some (.arr rev.reverse, rest)

def blockMembers (fuel : Nat) (done : Fields) (tokens : List Token) : Parsed :=
  match fuel with
  | 0 => none
  | fuel + 1 =>
    match tokens with
    | .key :: rest => do
      let (k, rest) ← nodeOrNull fuel .member [.key, .value, .blockEnd] rest
      let (v, rest) ← valueOrNull fuel .member [.key, .value, .blockEnd] rest
      let done ← member? done k v
      blockMembers fuel done rest
    | .blockEnd :: rest => some (.obj done, rest)
    | _ => none

/-- The value after a colon; null without a colon. -/
def valueOrNull (fuel : Nat) (position : Position) (ends : List Token) (tokens : List Token) :
    Parsed :=
  match fuel with
  | 0 => none
  | fuel + 1 =>
    match tokens with
    | .value :: rest => nodeOrNull fuel position ends rest
    | rest => some (.null, rest)

def flowItems (fuel : Nat) (first : Bool) (rev : List Value) (tokens : List Token) :
    Parsed :=
  match fuel with
  | 0 => none
  | fuel + 1 =>
    match tokens with
    | .closeList :: rest => some (.arr rev.reverse, rest)
    | tokens => do
      match ← takeComma? first tokens with
      | .closeList :: rest => some (.arr rev.reverse, rest)
      | .key :: rest => do
        let (k, rest) ← nodeOrNull fuel .flow [.value, .comma, .closeList] rest
        let (v, rest) ← valueOrNull fuel .flow [.comma, .closeList] rest
        let single ← member? [] k v
        flowItems fuel false (.obj single :: rev) rest
      | rest => do
        let (v, rest) ← node fuel .flow rest
        flowItems fuel false (v :: rev) rest

def flowMembers (fuel : Nat) (first : Bool) (done : Fields) (tokens : List Token) :
    Parsed :=
  match fuel with
  | 0 => none
  | fuel + 1 =>
    match tokens with
    | .closeObject :: rest => some (.obj done, rest)
    | tokens => do
      match ← takeComma? first tokens with
      | .closeObject :: rest => some (.obj done, rest)
      | .key :: rest => do
        let (k, rest) ← nodeOrNull fuel .flow [.value, .comma, .closeObject] rest
        let (v, rest) ← valueOrNull fuel .flow [.comma, .closeObject] rest
        let done ← member? done k v
        flowMembers fuel false done rest
      | rest => do
        let (k, rest) ← node fuel .flow rest
        let done ← member? done k .null
        flowMembers fuel false done rest
end

def skipEnds (tokens : List Token) : List Token := tokens.dropWhile (· = .documentEnd)

/-- The one document of a file; null if the file has none. -/
def ofTokens? (tokens : List Token) : Option Value := do
  let fuel := 4 * tokens.length + 4
  let (v, rest) ← match tokens with
    | [] => some (.null, [])
    | .documentStart :: rest =>
      nodeOrNull fuel .block [.documentStart, .documentEnd] rest
    | tokens => node fuel .block tokens
  if (skipEnds rest).isEmpty then pure v else none

def plainLines : List Char → List Char
  | '\r' :: '\n' :: rest => '\n' :: plainLines rest
  | '\r' :: rest => '\n' :: plainLines rest
  | c :: rest => c :: plainLines rest
  | [] => []

/-- Why a file has no value. -/
inductive Fault where
  | malformed
  | noCharacter (code : Nat)

def Token.noCharacter? : Token → Option Nat
  | .uncharted code => some code
  | _ => none

def read (text : String) : Except Fault Value :=
  match tokens? (plainLines text.toList) with
  | none => .error .malformed
  | some tokens =>
    match ofTokens? tokens, tokens.findSome? Token.noCharacter? with
    | none, _ => .error .malformed
    | some _, some code => .error (.noCharacter code)
    | some v, none => .ok v

end SignalCoach.Yaml
