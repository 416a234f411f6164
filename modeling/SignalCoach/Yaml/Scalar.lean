import SignalCoach.Json.Token
import SignalCoach.Yaml.Cursor

/-! The texts of scalars: plain, quoted, and in blocks. Each reader returns the text and the place
after it, or nothing if the scalar is malformed. -/
namespace SignalCoach.Yaml

structure Surroundings where
  /-- The indentation of the block around it; -1 at the top. -/
  indent : Int
  inFlow : Bool

def escape? : Char → Option Char
  | '0' => some '\x00'
  | 'a' => some '\x07'
  | 'b' => some '\x08'
  | 't' => some '\t'
  | '\t' => some '\t'
  | 'n' => some '\n'
  | 'v' => some '\x0b'
  | 'f' => some '\x0c'
  | 'r' => some '\r'
  | 'e' => some '\x1b'
  | ' ' => some ' '
  | '"' => some '"'
  | '\\' => some '\\'
  | '/' => some '/'
  | 'N' => some '\u0085'
  | '_' => some '\u00a0'
  | 'L' => some '\u2028'
  | 'P' => some '\u2029'
  | _ => none

def codeLength? : Char → Option Nat
  | 'x' => some 2
  | 'u' => some 4
  | 'U' => some 8
  | _ => none

def takeCode? (n : Nat) (c : Cursor) : Option (Nat × Cursor) :=
  let ds := c.rest.take n
  if ds.length = n then do
    let code ← ds.foldlM (fun k ch => (Json.hexDigit? ch).map (k * 16 + ·)) 0
    pure (code, c.advanceBy n)
  else none

/-- What a quoted text is made of: characters, and codes that are none. A code beyond the last
character is refused; half of a surrogate pair is kept as it is, two of them side by side as well, and
a text here has no place for it. -/
abbrev Letter := Except Nat Char

def letterOf (code : Nat) : Letter := if code.isValidChar then .ok (Char.ofNat code) else .error code

namespace Quoted

/-- The breaks and blanks after the end of a line inside quotes. -/
def breaks (fuel : Nat) (c : Cursor) : Option (List Char × Cursor) :=
  match fuel with
  | 0 => none
  | fuel + 1 =>
    if c.atDocumentMark then none
    else
      let c := c.skip fun ch => ch = ' ' || ch = '\t'
      match c.takeBreak? with
      | some (ch, c) => do
        let (more, c) ← breaks fuel c
        pure (ch :: more, c)
      | none => some ([], c)

/-- Blanks inside quotes. A break between two lines counts as one blank, and each further break as
itself. -/
def spaces (c : Cursor) : Option (List Char × Cursor) :=
  let (blanks, c) := c.span fun ch => ch = ' ' || ch = '\t'
  if c.atEnd then none
  else
    match c.takeBreak? with
    | some (ch, c) => do
      let (more, c) ← breaks (c.rest.length + 1) c
      let first := if ch ≠ '\n' then [ch] else if more.isEmpty then [' '] else []
      pure (first ++ more, c)
    | none => some (blanks, c)

def letters (text : List Char × Cursor) : List Letter × Cursor := (text.1.map .ok, text.2)

def isPlain (ch : Char) : Bool :=
  !(ch = '\'' || ch = '"' || ch = '\\' || ch = ' ' || ch = '\t' || isBreak ch)

def escaped (c : Cursor) : Option (List Letter × Cursor) := do
  let ch ← c.peek? 0
  match escape? ch with
  | some r => pure ([.ok r], c.advance)
  | none =>
    match codeLength? ch with
    | some n => do
      let (code, c) ← takeCode? n c.advance
      pure ([letterOf code], c)
    | none =>
      match c.takeBreak? with
      | some (_, c) => (breaks (c.rest.length + 1) c).map letters
      | none => none

/-- A piece of the text inside quotes, at most up to the next special character; none at a blank, a
break or the end quote. -/
def piece (double : Bool) (c : Cursor) : Option (Option (List Letter × Cursor)) :=
  match c.peek? 0 with
  | none => some none
  | some ch =>
    if isPlain ch then some (some (letters (c.span isPlain)))
    else if !double && ch = '\'' && c.sees 1 (· = '\'') then some (some ([.ok '\''], c.advanceBy 2))
    else if (double && ch = '\'') || (!double && (ch = '"' || ch = '\\')) then
      some (some ([.ok ch], c.advance))
    else if double && ch = '\\' then (escaped c.advance).map some
    else some none

def body (double : Bool) (fuel : Nat) (c : Cursor) : Option (List Letter × Cursor) :=
  match fuel with
  | 0 => none
  | fuel + 1 => do
    match ← piece double c with
    | some (text, c) =>
      let (more, c) ← body double fuel c
      pure (text ++ more, c)
    | none =>
      if c.sees 0 (· = if double then '"' else '\'') then pure ([], c.advance)
      else
        let (text, c) ← (spaces c).map letters
        let (more, c) ← body double fuel c
        pure (text ++ more, c)

/-- The text, or the first code in it that is no character. -/
def read? (double : Bool) (c : Cursor) : Option (Except Nat (List Char) × Cursor) :=
  (body double (2 * c.rest.length + 1) c.advance).map fun (text, c) => (text.mapM id, c)

end Quoted

namespace Plain

/-- Whether a plain scalar ends before the character at the cursor. -/
def ends (s : Surroundings) (c : Cursor) : Bool :=
  c.blankAt 0 ||
    (c.sees 0 (· = ':') &&
      (c.blankAt 1 || (s.inFlow && c.sees 1 fun ch => [',', '[', ']', '{', '}'].contains ch))) ||
    (s.inFlow && c.sees 0 fun ch => [',', '?', '[', ']', '{', '}'].contains ch)

def word (s : Surroundings) (fuel : Nat) (c : Cursor) : List Char × Cursor :=
  match fuel with
  | 0 => ([], c)
  | fuel + 1 =>
    if ends s c then ([], c)
    else
      match c.rest with
      | [] => ([], c)
      | ch :: _ =>
        let (more, c) := word s fuel c.advance
        (ch :: more, c)

/-- Blank lines between two lines of a plain scalar; false if a document mark was met. -/
def breaks (fuel : Nat) (c : Cursor) : Bool × List Char × Cursor :=
  match fuel with
  | 0 => (true, [], c)
  | fuel + 1 =>
    let c := c.skip (· = ' ')
    match c.takeBreak? with
    | some (ch, c) =>
      if c.atDocumentMark then (false, [], c)
      else
        let (go, more, c) := breaks fuel c
        (go, ch :: more, c)
    | none => (true, [], c)

/-- What joins two words: blanks, or the folded breaks between two lines; nothing if the scalar
ends. The flag says whether a line ended. -/
def spaces (c : Cursor) : List Char × Bool × Cursor :=
  let (blanks, c) := c.span (· = ' ')
  match c.takeBreak? with
  | none => (blanks, false, c)
  | some (ch, c) =>
    if c.atDocumentMark then ([], true, c)
    else
      let (go, more, c) := breaks (c.rest.length + 1) c
      if !go then ([], true, c)
      else
        let first := if ch ≠ '\n' then [ch] else if more.isEmpty then [' '] else []
        (first ++ more, true, c)

/-- The text of a plain scalar, whether a line ended in it last, and the place after it. -/
def read (s : Surroundings) (fuel : Nat) (c : Cursor) : List Char × Bool × Cursor :=
  match fuel with
  | 0 => ([], false, c)
  | fuel + 1 =>
    if c.sees 0 (· = '#') then ([], false, c)
    else
      let (text, c) := word s (c.rest.length + 1) c
      if text.isEmpty then ([], false, c)
      else
        let (joint, newLine, c) := spaces c
        if joint.isEmpty || c.sees 0 (· = '#') || (!s.inFlow && (c.column : Int) < s.indent + 1) then
          (text, newLine, c)
        else
          let (more, newLine', c) := read s fuel c
          if more.isEmpty then (text, newLine || newLine', c)
          else (text ++ joint ++ more, newLine', c)

end Plain

namespace Block

/-- What becomes of the breaks at the end of a block. -/
inductive Chomping where
  | clip | strip | keep
deriving DecidableEq

def chomping? : Char → Option Chomping
  | '+' => some .keep
  | '-' => some .strip
  | _ => none

def increment? (ch : Char) : Option Nat := if ch.isDigit then some (ch.toNat - 48) else none

/-- Chomping and indentation, in either order. -/
def indicators (c : Cursor) : Chomping × Option Nat × Cursor :=
  match (c.peek? 0).bind chomping? with
  | some chomping =>
    let c := c.advance
    match (c.peek? 0).bind increment? with
    | some n => (chomping, some n, c.advance)
    | none => (chomping, none, c)
  | none =>
    match (c.peek? 0).bind increment? with
    | some n =>
      let c := c.advance
      match (c.peek? 0).bind chomping? with
      | some chomping => (chomping, some n, c.advance)
      | none => (.clip, some n, c)
    | none => (.clip, none, c)

/-- The rest of the first line: blanks and a comment. -/
def header? (c : Cursor) : Option (Chomping × Option Nat × Cursor) :=
  let (chomping, increment, c) := indicators c
  if increment = some 0 ∨ ¬ (c.atEnd ∨ c.sees 0 fun ch => ch = ' ' || isBreak ch) then none
  else
    let c := c.skip (· = ' ')
    let c := if c.sees 0 (· = '#') then c.skip fun ch => !isBreak ch else c
    if c.atEnd then some (chomping, increment, c)
    else c.takeBreak?.map fun (_, c) => (chomping, increment, c)

/-- The blank lines in front of a block, and its deepest blank column. -/
def leading (fuel deepest : Nat) (c : Cursor) : List Char × Nat × Cursor :=
  match fuel with
  | 0 => ([], deepest, c)
  | fuel + 1 =>
    match c.takeBreak? with
    | some (ch, c) =>
      let (more, deepest, c) := leading fuel deepest c
      (ch :: more, deepest, c)
    | none =>
      if c.sees 0 (· = ' ') then leading fuel (max deepest (c.column + 1)) c.advance
      else ([], deepest, c)

def indentTo (indent : Nat) (c : Cursor) : Cursor :=
  c.advanceBy (min (indent - c.column) (c.rest.takeWhile (· = ' ')).length)

/-- The blank lines after a line of a block. -/
def breaks (indent fuel : Nat) (c : Cursor) : List Char × Cursor :=
  match fuel with
  | 0 => ([], c)
  | fuel + 1 =>
    let c := indentTo indent c
    match c.takeBreak? with
    | some (ch, c) =>
      let (more, c) := breaks indent fuel c
      (ch :: more, c)
    | none => ([], c)

def isBlankChar (ch : Char) : Bool := ch = ' ' || ch = '\t'

/-- The lines of a block, after the blank lines `before`. At the end stand the last break and the
blank lines after it, as the chomping says. -/
def lines (folded : Bool) (chomping : Chomping) (indent fuel : Nat) (before : List Char)
    (lastBreak : List Char) (c : Cursor) : List Char × Cursor :=
  match fuel with
  | 0 => ([], c)
  | fuel + 1 =>
    if c.column = indent ∧ ¬ c.atEnd then
      let startsBlank := c.sees 0 isBlankChar
      let (text, c) := c.span fun ch => !isBreak ch
      let (lineBreak, c) := match c.takeBreak? with
        | some (ch, c) => ([ch], c)
        | none => ([], c)
      let (after, c) := breaks indent (c.rest.length + 1) c
      if c.column = indent ∧ ¬ c.atEnd then
        let joint :=
          if folded && lineBreak = ['\n'] && !startsBlank && !c.sees 0 isBlankChar then
            (if after.isEmpty then [' '] else [])
          else lineBreak
        let (more, c) := lines folded chomping indent fuel after lineBreak c
        (before ++ text ++ joint ++ more, c)
      else (before ++ text ++ finish lineBreak after, c)
    else (finish lastBreak before, c)
where
  finish (lineBreak after : List Char) : List Char :=
    (if chomping = .strip then [] else lineBreak) ++ (if chomping = .keep then after else [])

def read? (folded : Bool) (s : Surroundings) (c : Cursor) : Option (List Char × Cursor) := do
  let (chomping, increment, c) ← header? c.advance
  let least := (max 1 (s.indent + 1)).toNat
  let fuel := c.rest.length + 1
  match increment with
  | some n =>
    let indent := least + n - 1
    let (before, c) := breaks indent fuel c
    pure (lines folded chomping indent fuel before [] c)
  | none =>
    let (before, deepest, c) := leading fuel 0 c
    pure (lines folded chomping (max least deepest) fuel before [] c)

end Block

end SignalCoach.Yaml
