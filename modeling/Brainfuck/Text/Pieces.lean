/-!
Texts in pieces. A character that separates the pieces belongs to none of them,
and pieces may be empty, so there is one more than there are separators.
-/

set_option autoImplicit false
set_option relaxedAutoImplicit false

namespace Brainfuck.Text

/-- The pieces of a list of characters. -/
def cutAt (separator : Char) : List Char → List (List Char)
  | [] => [[]]
  | c :: rest =>
    if c = separator then [] :: cutAt separator rest
    else
      match cutAt separator rest with
      | [] => [[c]]
      | piece :: pieces => (c :: piece) :: pieces

/-- The pieces of a text. -/
def pieces (separator : Char) (text : String) : List String :=
  (cutAt separator text.toList).map String.ofList

end Brainfuck.Text
