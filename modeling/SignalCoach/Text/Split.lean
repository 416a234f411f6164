/-! Cutting text at a mark. -/
namespace SignalCoach.Text

/-- The pieces between the marks, one more than there are marks. -/
def pieces (mark : Char) : List Char → List (List Char)
  | [] => [[]]
  | c :: rest =>
    if c = mark then [] :: pieces mark rest
    else match pieces mark rest with
      | [] => [[c]]
      | first :: others => (c :: first) :: others

end SignalCoach.Text
