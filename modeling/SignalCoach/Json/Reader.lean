import SignalCoach.Decimal.Numeral
import SignalCoach.Json.Token
import SignalCoach.Json.Value

/-! JSON documents from their tokens. Reading is a fold over the tokens with the open containers on
a stack. -/
namespace SignalCoach.Json

/-- What a kind of JSON text may hold. -/
structure Dialect where
  /-- Integers of any size; otherwise one outside the 64-bit words is read as a double. -/
  wideIntegers : Bool
  /-- The words `NaN`, `Infinity` and `-Infinity`, and decimals beyond every double. -/
  specials : Bool
  maxDepth : Option Nat

/-- The strict form in which jobs and rules are stored. -/
def Dialect.strict : Dialect :=
  { wideIntegers := false, specials := false, maxDepth := some 1024 }

/-- The lenient form of settings. -/
def Dialect.lenient : Dialect :=
  { wideIntegers := true, specials := true, maxDepth := none }

def withoutMinus : List Char → List Char
  | '-' :: r => r
  | r => r

def isWhole : List Char → Bool
  | [] => false
  | ['0'] => true
  | c :: _ => c ≠ '0'

/-- Whether digits follow a point, if there is one, and what comes after them. -/
def takeFraction : List Char → Bool × List Char
  | '.' :: r => (!(r.takeWhile Char.isDigit).isEmpty, r.dropWhile Char.isDigit)
  | r => (true, r)

/-- No sign but minus, no zeros in front, digits on both sides of a point. -/
def isNumber (w : List Char) : Bool :=
  let w := withoutMinus w
  let (fractionOk, rest) := takeFraction (w.dropWhile Char.isDigit)
  isWhole (w.takeWhile Char.isDigit) && fractionOk && (Numeral.readExponent rest).isSome

def isInteger (w : List Char) : Bool := !w.any fun c => c = '.' || c = 'e' || c = 'E'

/-- The integer written by an optional minus and digits. -/
def integerOf : List Char → Int
  | '-' :: digits => -(Text.natOfDigits digits : Int)
  | digits => Text.natOfDigits digits

def number? (dialect : Dialect) (w : List Char) : Option Value :=
  if !isNumber w then none
  else if isInteger w && (dialect.wideIntegers || isWord (integerOf w)) then
    some (.int (integerOf w))
  else do
    let x := (← Numeral.ofText? w).toDouble
    if x.isFinite || dialect.specials then some (.double x) else none

def word? (dialect : Dialect) (w : List Char) : Option Value :=
  let s := String.ofList w
  if s = "null" then some .null
  else if s = "true" then some (.bool true)
  else if s = "false" then some (.bool false)
  else if dialect.specials && s = "NaN" then some (.double .nan)
  else if dialect.specials && s = "Infinity" then some (.double (.infinity false))
  else if dialect.specials && s = "-Infinity" then some (.double (.infinity true))
  else number? dialect w

/-- An open container: what it holds so far, and the key that awaits its value. -/
inductive Frame where
  | items (rev : List Value)
  | fields (done : Fields)
  | member (done : Fields) (key : String)

/-- What may come next. -/
inductive Phase where
  | value
  /-- A first element, or the end of an empty container. -/
  | first
  | key
  | colon
  | separator
  | finished (v : Value)

structure Parser where
  stack : List Frame
  phase : Phase

namespace Parser

def start : Parser := { stack := [], phase := .value }

def complete (v : Value) : List Frame → Option Parser
  | [] => some { stack := [], phase := .finished v }
  | .items rev :: stack => some { stack := .items (v :: rev) :: stack, phase := .separator }
  | .member done key :: stack =>
    some { stack := .fields (done.put (.text key) v) :: stack, phase := .separator }
  | .fields _ :: _ => none

def push (dialect : Dialect) (frame : Frame) (stack : List Frame) : Option Parser :=
  if dialect.maxDepth.any (· ≤ stack.length) then none
  else some { stack := frame :: stack, phase := .first }

def value? (dialect : Dialect) (stack : List Frame) : Token → Option Parser
  | .openList => push dialect (.items []) stack
  | .openObject => push dialect (.fields []) stack
  | .text s => complete (.str s) stack
  | .word w => (word? dialect w).bind (complete · stack)
  | _ => none

def close? : List Frame → Token → Option Parser
  | .items rev :: stack, .closeList => complete (.arr rev.reverse) stack
  | .fields done :: stack, .closeObject => complete (.obj done) stack
  | _, _ => none

def key? : List Frame → Token → Option Parser
  | .fields done :: stack, .text s => some { stack := .member done s :: stack, phase := .colon }
  | _, _ => none

def step (dialect : Dialect) (parser : Parser) (token : Token) : Option Parser :=
  match parser.phase, token with
  | .value, t => value? dialect parser.stack t
  | .first, t =>
    (close? parser.stack t).or <| match parser.stack with
      | .fields _ :: _ => key? parser.stack t
      | _ => value? dialect parser.stack t
  | .key, t => key? parser.stack t
  | .colon, .colon => some { parser with phase := .value }
  | .colon, _ => none
  | .separator, .comma =>
    match parser.stack with
    | .items _ :: _ => some { parser with phase := .value }
    | .fields _ :: _ => some { parser with phase := .key }
    | _ => none
  | .separator, t => close? parser.stack t
  | .finished _, _ => none

def finish (parser : Parser) : Option Value :=
  match parser.phase with
  | .finished v => some v
  | _ => none

end Parser

def ofTokens? (dialect : Dialect) (tokens : List Token) : Option Value :=
  (tokens.foldlM (Parser.step dialect) Parser.start).bind Parser.finish

def read? (dialect : Dialect) (text : String) : Option Value :=
  (tokens? text.toList).bind (ofTokens? dialect)

def utf8 (text : String) : List UInt8 := text.toUTF8.data.toList

def ofUtf8? (bytes : List UInt8) : Option String := String.fromUTF8? ⟨bytes.toArray⟩

def readBytes? (dialect : Dialect) (bytes : List UInt8) : Option Value :=
  (ofUtf8? bytes).bind (read? dialect)

end SignalCoach.Json
