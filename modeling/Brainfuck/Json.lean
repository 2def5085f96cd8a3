/-!
JSON values, as far as the server reads and writes them. The members of an
object keep their order, and a later member of the same name hides an earlier
one. A number that is no integer is kept as it is written.
-/

set_option autoImplicit false
set_option relaxedAutoImplicit false

namespace Brainfuck

inductive Json where
  | null
  | bool (value : Bool)
  | integer (value : Int)
  | decimal (literal : String)
  | string (value : String)
  | array (items : List Json)
  | object (members : List (String × Json))

namespace Json

/-- The member of a name; the last one counts. -/
def member? (members : List (String × Json)) (name : String) : Option Json :=
  (members.reverse.find? fun entry ↦ entry.1 == name).map (·.2)

end Json

end Brainfuck
