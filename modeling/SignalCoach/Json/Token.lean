/-! JSON text as a sequence of tokens. Reading is a fold over the characters. -/
namespace SignalCoach.Json

inductive Token where
  | openList | closeList | openObject | closeObject | comma | colon
  | text (s : String)
  | word (w : List Char)
deriving DecidableEq

/-- Where the reader stands. The characters read so far of a word or a text are kept in reverse. -/
inductive Mode where
  | between
  | word (rev : List Char)
  | quoted (rev : List Char)
  | escaped (rev : List Char)
  /-- In the digits of a code unit, after the first half of a pair if there is one. -/
  | code (rev : List Char) (high : Option Nat) (left value : Nat)
  /-- After the first half of a pair, which another code unit must complete. -/
  | half (rev : List Char) (high : Nat)
  | halfEscaped (rev : List Char) (high : Nat)

structure Lexer where
  tokens : List Token
  mode : Mode

def isBlank (c : Char) : Bool := c = ' ' || c = '\t' || c = '\n' || c = '\r'

def punctuation? : Char → Option Token
  | '[' => some .openList
  | ']' => some .closeList
  | '{' => some .openObject
  | '}' => some .closeObject
  | ',' => some .comma
  | ':' => some .colon
  | _ => none

def escape? : Char → Option Char
  | '"' => some '"'
  | '\\' => some '\\'
  | '/' => some '/'
  | 'b' => some '\x08'
  | 'f' => some '\x0c'
  | 'n' => some '\n'
  | 'r' => some '\r'
  | 't' => some '\t'
  | _ => none

def hexDigit? (c : Char) : Option Nat :=
  if '0' ≤ c ∧ c ≤ '9' then some (c.toNat - 48)
  else if 'a' ≤ c ∧ c ≤ 'f' then some (c.toNat - 87)
  else if 'A' ≤ c ∧ c ≤ 'F' then some (c.toNat - 55)
  else none

namespace Lexer

def start : Lexer := { tokens := [], mode := .between }

def open? (tokens : List Token) (c : Char) : Lexer :=
  if isBlank c then { tokens, mode := .between }
  else if c = '"' then { tokens, mode := .quoted [] }
  else match punctuation? c with
    | some token => { tokens := token :: tokens, mode := .between }
    | none => { tokens, mode := .word [c] }

/-- A complete code unit. Halves of pairs must come in order. -/
def unit? (rev : List Char) (high : Option Nat) (unit : Nat) : Option Mode :=
  let isHigh := 0xd800 ≤ unit && unit < 0xdc00
  let isLow := 0xdc00 ≤ unit && unit < 0xe000
  match high with
  | none =>
    if isHigh then some (.half rev unit)
    else if isLow then none
    else some (.quoted (Char.ofNat unit :: rev))
  | some high =>
    if isLow then
      some (.quoted (Char.ofNat (0x10000 + (high - 0xd800) * 0x400 + (unit - 0xdc00)) :: rev))
    else none

def step (lexer : Lexer) (c : Char) : Option Lexer :=
  let tokens := lexer.tokens
  match lexer.mode with
  | .between => some (open? tokens c)
  | .word rev =>
    if isBlank c || c = '"' || (punctuation? c).isSome then
      some (open? (.word rev.reverse :: tokens) c)
    else some { tokens, mode := .word (c :: rev) }
  | .quoted rev =>
    if c = '"' then some { tokens := .text (String.ofList rev.reverse) :: tokens, mode := .between }
    else if c = '\\' then some { tokens, mode := .escaped rev }
    else if c.toNat < 0x20 then none
    else some { tokens, mode := .quoted (c :: rev) }
  | .escaped rev =>
    if c = 'u' then some { tokens, mode := .code rev none 4 0 }
    else (escape? c).map fun e => { tokens, mode := .quoted (e :: rev) }
  | .code rev high left value => do
    let value := value * 16 + (← hexDigit? c)
    if left = 1 then
      let mode ← unit? rev high value
      pure { tokens, mode }
    else pure { tokens, mode := .code rev high (left - 1) value }
  | .half rev high =>
    if c = '\\' then some { tokens, mode := .halfEscaped rev high } else none
  | .halfEscaped rev high =>
    if c = 'u' then some { tokens, mode := .code rev (some high) 4 0 } else none

def finish (lexer : Lexer) : Option (List Token) :=
  match lexer.mode with
  | .between => some lexer.tokens.reverse
  | .word rev => some (Token.word rev.reverse :: lexer.tokens).reverse
  | _ => none

end Lexer

def tokens? (text : List Char) : Option (List Token) :=
  (text.foldlM Lexer.step Lexer.start).bind Lexer.finish

end SignalCoach.Json
