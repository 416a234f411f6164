import SignalCoach.Yaml.Scalar

/-! A file as a sequence of tokens. Indentation becomes the start and end of blocks. A key that is
written without a mark of its own is known only by the colon after it; its token is then inserted
where the key began. -/
namespace SignalCoach.Yaml

inductive Token where
  | documentStart | documentEnd
  | sequenceStart | mappingStart | blockEnd
  | openList | closeList | openObject | closeObject
  | entry | comma | key | value
  /-- A scalar; the meaning of a plain one depends on its text. -/
  | scalar (text : List Char) (plain : Bool)
  /-- A scalar with a code in it that is no character. -/
  | uncharted (code : Nat)
deriving DecidableEq

/-- A token that becomes a key if a colon follows on its line. -/
structure KeyPlace where
  level : Nat
  position : Nat
  /-- It stands where only a key can stand. -/
  required : Bool
  cursor : Cursor

structure Scanner where
  cursor : Cursor
  tokens : List Token := []
  count : Nat := 0
  indent : Int := -1
  outer : List Int := []
  flow : Nat := 0
  /-- Whether a key may begin here. -/
  keyAllowed : Bool := true
  /-- One place a level at most. -/
  keyPlaces : List KeyPlace := []
  finished : Bool := false

namespace Scanner

def emit (token : Token) (s : Scanner) : Scanner :=
  { s with tokens := token :: s.tokens, count := s.count + 1 }

def insertAt (position : Nat) (token : Token) (s : Scanner) : Scanner :=
  let later := s.count - position
  { s with
    tokens := s.tokens.take later ++ token :: s.tokens.drop later
    count := s.count + 1 }

def column (s : Scanner) : Int := s.cursor.column

/-- Blanks, comments and breaks before the next token. A line outside brackets may begin with a
key. -/
def skipBlanks (fuel : Nat) (s : Scanner) : Scanner :=
  match fuel with
  | 0 => s
  | fuel + 1 =>
    let c := s.cursor.skip (· = ' ')
    let c := if c.sees 0 (· = '#') then c.skip fun ch => !isBreak ch else c
    match c.takeBreak? with
    | some (_, c) =>
      skipBlanks fuel { s with cursor := c, keyAllowed := s.keyAllowed || s.flow = 0 }
    | none => { s with cursor := c }

/-- A key stands on one line, within 1024 characters. -/
def isStale (s : Scanner) (k : KeyPlace) : Bool :=
  k.cursor.line ≠ s.cursor.line || 1024 < s.cursor.index - k.cursor.index

/-- Gives up the keys whose colon can no longer come; none if one of them had to come. -/
def dropStale (s : Scanner) : Option Scanner :=
  if s.keyPlaces.any fun k => s.isStale k && k.required then none
  else some { s with keyPlaces := s.keyPlaces.filter fun k => !s.isStale k }

def dropKey (s : Scanner) : Option Scanner :=
  if s.keyPlaces.any fun k => k.level = s.flow && k.required then none
  else some { s with keyPlaces := s.keyPlaces.filter fun k => k.level ≠ s.flow }

/-- Remembers the next token as a possible key. -/
def saveKey (s : Scanner) : Option Scanner :=
  if !s.keyAllowed then some s
  else do
    let required := s.flow = 0 && s.indent = s.column
    let s ← s.dropKey
    pure { s with
      keyPlaces := { level := s.flow, position := s.count, required, cursor := s.cursor } ::
        s.keyPlaces }

def unwind (column : Int) (s : Scanner) : Scanner :=
  if 0 < s.flow then s else closeAll s.outer s
where
  closeAll : List Int → Scanner → Scanner
    | [], s => s
    | indent :: outer, s =>
      if column < s.indent then closeAll outer { s.emit .blockEnd with indent, outer } else s

/-- Begins a block at a column that is deeper than the block around. -/
def indentTo (column : Int) (s : Scanner) : Option Scanner :=
  if s.indent < column then some { s with indent := column, outer := s.indent :: s.outer }
  else none

def mark (token : Token) (s : Scanner) : Scanner :=
  { s.emit token with cursor := s.cursor.advance }

def openFlow (token : Token) (s : Scanner) : Option Scanner := do
  let s ← s.saveKey
  pure { s.mark token with flow := s.flow + 1, keyAllowed := true }

def closeFlow (token : Token) (s : Scanner) : Option Scanner := do
  let s ← s.dropKey
  if s.flow = 0 then none
  else pure { s.mark token with flow := s.flow - 1, keyAllowed := false }

def comma (s : Scanner) : Option Scanner := do
  let s ← s.dropKey
  pure { s.mark .comma with keyAllowed := true }

/-- A dash. Outside brackets it begins a sequence unless it continues one. -/
def dash (s : Scanner) : Option Scanner := do
  if s.flow = 0 && !s.keyAllowed then none
  else
    let s := if s.flow = 0 then
        match s.indentTo s.column with
        | some s => s.emit .sequenceStart
        | none => s
      else s
    let s ← s.dropKey
    pure { s.mark .entry with keyAllowed := true }

def beginMapping (s : Scanner) : Scanner :=
  match s.indentTo s.column with
  | some s => s.emit .mappingStart
  | none => s

/-- A question mark in front of a key. -/
def question (s : Scanner) : Option Scanner := do
  if s.flow = 0 && !s.keyAllowed then none
  else
    let s := if s.flow = 0 then s.beginMapping else s
    let s ← s.dropKey
    pure { s.mark .key with keyAllowed := s.flow = 0 }

/-- Makes a key of the token that was remembered. -/
def keyBefore (k : KeyPlace) (s : Scanner) : Scanner :=
  let s := { s with keyPlaces := s.keyPlaces.filter fun other => other.level ≠ s.flow }
  let s := s.insertAt k.position .key
  let s := if s.flow = 0 then
      match s.indentTo k.cursor.column with
      | some s => s.insertAt k.position .mappingStart
      | none => s
    else s
  { s with keyAllowed := false }

/-- A colon: what came before it on the line is a key, or the key is empty or marked. -/
def colon (s : Scanner) : Option Scanner := do
  match s.keyPlaces.find? fun k => k.level = s.flow with
  | some k => pure ((s.keyBefore k).mark .value)
  | none =>
    if s.flow = 0 && !s.keyAllowed then none
    else
      let s := if s.flow = 0 then s.beginMapping else s
      let s ← ({ s with keyAllowed := s.flow = 0 } : Scanner).dropKey
      pure (s.mark .value)

def documentMark (token : Token) (s : Scanner) : Option Scanner := do
  let s ← (s.unwind (-1)).dropKey
  pure { s.emit token with cursor := s.cursor.advanceBy 3, keyAllowed := false }

def surroundings (s : Scanner) : Surroundings := { indent := s.indent, inFlow := 0 < s.flow }

def block (folded : Bool) (s : Scanner) : Option Scanner := do
  let s ← s.dropKey
  let (text, cursor) ← Block.read? folded s.surroundings s.cursor
  pure { s.emit (.scalar text false) with cursor, keyAllowed := true }

def quoted (double : Bool) (s : Scanner) : Option Scanner := do
  let s ← s.saveKey
  let (text, cursor) ← Quoted.read? double s.cursor
  let token := match text with
    | .ok text => .scalar text false
    | .error code => .uncharted code
  pure { s.emit token with cursor, keyAllowed := false }

def plain (s : Scanner) : Option Scanner := do
  let s ← s.saveKey
  let (text, newLine, cursor) := Plain.read s.surroundings (s.cursor.rest.length + 1) s.cursor
  pure { s.emit (.scalar text true) with cursor, keyAllowed := newLine }

def reserved : List Char :=
  ['-', '?', ':', ',', '[', ']', '{', '}', '#', '&', '*', '!', '|', '>', '\'', '"', '%', '@',
   '\x60']

def startsPlain (s : Scanner) (ch : Char) : Bool :=
  let c := s.cursor
  (!c.blankAt 0 && !reserved.contains ch) ||
    (!c.blankAt 1 && (ch = '-' || (s.flow = 0 && (ch = '?' || ch = ':'))))

/-- The token that begins with a character; anchors, aliases, tags and directives are none. -/
def token (ch : Char) (s : Scanner) : Option Scanner :=
  let c := s.cursor
  let inFlow := decide (0 < s.flow)
  if c.column = 0 ∧ c.atDocumentMark then
    s.documentMark (if ch = '-' then .documentStart else .documentEnd)
  else if ch = '[' then s.openFlow .openList
  else if ch = '{' then s.openFlow .openObject
  else if ch = ']' then s.closeFlow .closeList
  else if ch = '}' then s.closeFlow .closeObject
  else if ch = ',' then s.comma
  else if ch = '-' && c.blankAt 1 then s.dash
  else if ch = '?' && (inFlow || c.blankAt 1) then s.question
  else if ch = ':' && (inFlow || c.blankAt 1) then s.colon
  else if ch = '|' && !inFlow then s.block false
  else if ch = '>' && !inFlow then s.block true
  else if ch = '\'' then s.quoted false
  else if ch = '"' then s.quoted true
  else if s.startsPlain ch then s.plain
  else none

def finish (s : Scanner) : Option Scanner := do
  let s ← (s.unwind (-1)).dropKey
  pure { s with finished := true }

def step (s : Scanner) : Option Scanner := do
  let s := s.skipBlanks (s.cursor.rest.length + 1)
  let s ← s.dropStale
  let s := s.unwind s.column
  match s.cursor.peek? 0 with
  | none => s.finish
  | some ch => s.token ch

def run : Nat → Scanner → Option Scanner
  | 0, s => some s
  | fuel + 1, s => if s.finished then some s else s.step.bind (run fuel)

end Scanner

/-- The characters of which a file may be made. -/
def isPrintable (c : Char) : Bool :=
  let n := c.toNat
  c = '\t' || c = '\n' || (0x20 ≤ n && n ≤ 0x7e) || n = 0x85 || (0xa0 ≤ n && n ≤ 0xd7ff) ||
    (0xe000 ≤ n && n ≤ 0xfffd) || 0x10000 ≤ n

/-- The tokens of a file; every token takes a character at least. -/
def tokens? (text : List Char) : Option (List Token) := do
  if !text.all isPrintable then none
  else
    let cursor : Cursor := { rest := text }
    let cursor := if cursor.sees 0 (· = '\ufeff') then cursor.advance else cursor
    let s ← Scanner.run (text.length + 2) { cursor }
    if s.finished then pure s.tokens.reverse else none

end SignalCoach.Yaml
