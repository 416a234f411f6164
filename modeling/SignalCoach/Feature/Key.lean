/-! Canonical forms of keys: spellings of a key that differ in case or punctuation agree. -/
namespace SignalCoach.Feature

/-- ASCII letters and digits, and the four other letters that a comparison without case takes for
one of them: `İ`, `ı`, `ſ` and the Kelvin sign. -/
def isKept (c : Char) : Bool :=
  c.isAlphanum || c = '\u0130' || c = '\u0131' || c = '\u017f' || c = '\u212a'

/-- The lower case of a kept character. `İ` becomes `i` with a combining dot. -/
def lower (c : Char) : List Char :=
  if c = '\u0130' then ['i', '\u0307']
  else if c = '\u212a' then ['k']
  else [c.toLower]

def canonicalChars (s : List Char) : List Char := (s.filter isKept).flatMap lower

@[simp] theorem canonicalChars_append (s t : List Char) :
    canonicalChars (s ++ t) = canonicalChars s ++ canonicalChars t := by
  simp [canonicalChars]

def canonical (key : String) : String := String.ofList (canonicalChars key.toList)

end SignalCoach.Feature
