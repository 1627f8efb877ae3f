/-!
Splitting a text into its lines.
-/

namespace RegisterMachine.Text

/-- The lines of a text. A line ends at a line feed, and one carriage return just before it belongs
to the ending. A line feed at the very end starts no further line. -/
def lines : List Char → List (List Char)
  | [] => []
  | '\n' :: rest => [] :: lines rest
  | '\r' :: '\n' :: rest => [] :: lines rest
  | c :: rest =>
    match lines rest with
    | [] => [[c]]
    | line :: others => (c :: line) :: others

end RegisterMachine.Text
