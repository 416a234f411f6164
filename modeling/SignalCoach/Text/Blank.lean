/-! White space and trimming. -/
namespace SignalCoach.Text

/-- White space of every script. -/
def isBlank (c : Char) : Bool :=
  let n := c.toNat
  (9 ≤ n && n ≤ 13) || n = 32 || n = 0x85 || n = 0xa0 || n = 0x1680 ||
    (0x2000 ≤ n && n ≤ 0x200a) || n = 0x2028 || n = 0x2029 || n = 0x202f || n = 0x205f || n = 0x3000

/-- White space and the four information separators. -/
def isSpacing (c : Char) : Bool :=
  isBlank c || (0x1c ≤ c.toNat && c.toNat ≤ 0x1f)

def trim (skip : Char → Bool) (s : List Char) : List Char :=
  ((s.dropWhile skip).reverse.dropWhile skip).reverse

/-- Pads on the right to a width counted in characters. -/
def padRight (width : Nat) (s : String) : String :=
  s ++ String.ofList (List.replicate (width - s.length) ' ')

end SignalCoach.Text
