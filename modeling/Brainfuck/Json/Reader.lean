import Brainfuck.Json.Token

/-!
Reading a JSON value from tokens. The arrays and objects that are still open
wait on a list of frames, so the nesting of a text is no depth of recursion.
A text is malformed at the offset of the first token that does not fit.

Texts are read however deep they are nested. A reader that recurses into arrays
and objects gives up on a text that is nested deeper than its stack allows, and
a server that uses one says of such a body what it says of an unreadable one;
that bound is not modelled.
-/

set_option autoImplicit false
set_option relaxedAutoImplicit false

namespace Brainfuck.Json

inductive ReadError where
  | malformed (offset : Nat)
  /-- The text holds an integer of more digits than are read. -/
  | oversized
  deriving DecidableEq

/-- An open array or object; what is in it already is kept newest first. -/
inductive Frame where
  | array (items : List Json)
  | object (members : List (String × Json)) (name : String)

/-- What may come next. -/
inductive Expectation where
  | value
  /-- A value, or the end of the array that has just begun. -/
  | firstItem
  | name (members : List (String × Json))
  /-- A name, or the end of the object that has just begun. -/
  | firstName
  | colon (members : List (String × Json)) (name : String)
  /-- What follows an item: a comma or the end of the array. -/
  | afterItem (items : List Json)
  /-- What follows a member: a comma or the end of the object. -/
  | afterMember (members : List (String × Json))
  /-- The end of the text, after its value. -/
  | ending (value : Json)
  | finished (value : Json)

structure Reader where
  frames : List Frame
  expectation : Expectation

namespace Reader

def start : Reader := ⟨[], .value⟩

/-- Puts a complete value where it belongs. -/
def complete (value : Json) : List Frame → Reader
  | [] => ⟨[], .ending value⟩
  | .array items :: frames => ⟨frames, .afterItem (value :: items)⟩
  | .object members name :: frames => ⟨frames, .afterMember ((name, value) :: members)⟩

/-- Takes a token where a value is expected. -/
def pushValue (frames : List Frame) (t : Token) : Except ReadError Reader :=
  match t.kind with
  | .beginArray => .ok ⟨frames, .firstItem⟩
  | .beginObject => .ok ⟨frames, .firstName⟩
  | .scalar value => .ok (complete value frames)
  | .string value => .ok (complete (.string value) frames)
  | .badString offset => .error (.malformed offset)
  | .oversized => .error .oversized
  | _ => .error (.malformed t.start)

/-- Takes a token where the name of a member is expected. -/
def pushName (frames : List Frame) (members : List (String × Json)) (t : Token) :
    Except ReadError Reader :=
  match t.kind with
  | .string name => .ok ⟨frames, .colon members name⟩
  | .badString offset => .error (.malformed offset)
  | _ => .error (.malformed t.start)

/-- Takes one more token. -/
def push (r : Reader) (t : Token) : Except ReadError Reader :=
  match r.expectation, t.kind with
  | .value, _ => pushValue r.frames t
  | .firstItem, .endArray => .ok (complete (.array []) r.frames)
  | .firstItem, _ => pushValue (.array [] :: r.frames) t
  | .name members, _ => pushName r.frames members t
  | .firstName, .endObject => .ok (complete (.object []) r.frames)
  | .firstName, _ => pushName r.frames [] t
  | .colon members name, .colon => .ok ⟨.object members name :: r.frames, .value⟩
  | .afterItem items, .comma => .ok ⟨.array items :: r.frames, .value⟩
  | .afterItem items, .endArray => .ok (complete (.array items.reverse) r.frames)
  | .afterMember members, .comma => .ok ⟨r.frames, .name members⟩
  | .afterMember members, .endObject => .ok (complete (.object members.reverse) r.frames)
  | .ending value, .ending => .ok ⟨[], .finished value⟩
  | _, _ => .error (.malformed t.start)

/-- Reads on to the end of the text; `fuel` bounds the number of tokens. -/
def resume (r : Reader) (fuel offset : Nat) (text : List Char) : Except ReadError Json :=
  match fuel with
  | 0 => .error (.malformed offset)
  | fuel + 1 =>
    let (t, next, rest) := Token.first offset text
    match r.push t with
    | .error error => .error error
    | .ok ⟨_, .finished value⟩ => .ok value
    | .ok r => r.resume fuel next rest

end Reader

/-- The value of a JSON text. A token takes at least one character, apart from the one that
marks the end of the text. -/
def ofText (text : List Char) : Except ReadError Json :=
  Reader.start.resume (text.length + 1) 0 text

end Brainfuck.Json
