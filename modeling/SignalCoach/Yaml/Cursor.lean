/-! A place in a file: what is left of the text, with line and column. -/
namespace SignalCoach.Yaml

def isBreak (c : Char) : Bool :=
  c = '\n' || c = '\u0085' || c = '\u2028' || c = '\u2029'

/-- A break as it stands in a scalar: the next-line character counts as a plain one. -/
def breakText (c : Char) : Char := if c = '\u0085' then '\n' else c

structure Cursor where
  rest : List Char
  index : Nat := 0
  line : Nat := 0
  column : Nat := 0

namespace Cursor

def peek? (c : Cursor) (n : Nat) : Option Char := c.rest[n]?

def sees (c : Cursor) (n : Nat) (test : Char → Bool) : Bool := (c.peek? n).any test

def atEnd (c : Cursor) : Bool := c.rest.isEmpty

/-- Whether a blank, a tab, a break or the end stands at a distance. -/
def blankAt (c : Cursor) (n : Nat) : Bool :=
  match c.peek? n with
  | none => true
  | some ch => ch = ' ' || ch = '\t' || isBreak ch

/-- One character further. The mark of byte order takes no column. -/
def advance (c : Cursor) : Cursor :=
  match c.rest with
  | [] => c
  | ch :: rest =>
    if isBreak ch then { rest, index := c.index + 1, line := c.line + 1, column := 0 }
    else
      { rest, index := c.index + 1, line := c.line,
        column := if ch = '\ufeff' then c.column else c.column + 1 }

def advanceBy (n : Nat) (c : Cursor) : Cursor := n.fold (fun _ _ c => c.advance) c

def span (test : Char → Bool) (c : Cursor) : List Char × Cursor :=
  let taken := c.rest.takeWhile test
  (taken, c.advanceBy taken.length)

def skip (test : Char → Bool) (c : Cursor) : Cursor := (c.span test).2

/-- A break at the cursor, and the place after it. -/
def takeBreak? (c : Cursor) : Option (Char × Cursor) :=
  match c.peek? 0 with
  | some ch => if isBreak ch then some (breakText ch, c.advance) else none
  | none => none

/-- Whether three marks of a document stand here, and a blank or the end after them. -/
def atDocumentMark (c : Cursor) : Bool :=
  (c.rest.take 3 = ['-', '-', '-'] || c.rest.take 3 = ['.', '.', '.']) && c.blankAt 3

end Cursor

end SignalCoach.Yaml
