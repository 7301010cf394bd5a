/-!
# Lines

A line ends at a line feed, and a carriage return right before that line feed belongs to the ending.
A last line without a line feed is a line as it stands; nothing follows a final line feed.
-/

namespace SampleTypes.Text

/-- Closes a line that is held back to front, without the carriage return of its ending. -/
def closeLine : List Char → List Char
  | '\r' :: rest => rest.reverse
  | reversed => reversed.reverse

/-- The lines of a text whose first characters were already read, back to front, into `reversed`. -/
def linesFrom : (reversed : List Char) → List Char → List (List Char)
  | [], [] => []
  | c :: cs, [] => [(c :: cs).reverse]
  | reversed, '\n' :: rest => closeLine reversed :: linesFrom [] rest
  | reversed, c :: rest => linesFrom (c :: reversed) rest

def lines (text : String) : List String :=
  (linesFrom [] text.toList).map String.ofList

end SampleTypes.Text
