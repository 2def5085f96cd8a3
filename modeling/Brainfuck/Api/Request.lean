import Brainfuck.Api.Response
import Brainfuck.Json.Reader
import Brainfuck.Text.Encoding
import Brainfuck.Text.Pieces

/-!
What the server is asked. The path of a request names an operation; its body
is a JSON object whose fields are checked one by one, so that an answer names
all that are at fault.
-/

set_option autoImplicit false
set_option relaxedAutoImplicit false

namespace Brainfuck.Api

structure Request where
  method : String
  /-- What follows the host: a path, and perhaps a query and a fragment. -/
  target : String
  host : String
  contentType : Option String
  body : List UInt8

/-- What the server can be asked to do. -/
inductive Operation where
  | parse
  | run
  deriving DecidableEq

namespace Operation

def path : Operation → String
  | .parse => "/api/parse"
  | .run => "/api/run"

def ofPath? (path : String) : Option Operation :=
  [Operation.parse, .run].find? fun operation ↦ operation.path == path

end Operation

/-- What the path of a request leads to. -/
inductive Route where
  | operation (operation : Operation)
  /-- An operation, but for slashes at the end of the path. -/
  | slashed (operation : Operation)
  | nowhere

namespace Route

/-- Undoes the percent encoding of a path, byte by byte. -/
def percentDecode : List Char → List Char
  | '%' :: a :: b :: rest =>
    match Text.Hex.value? a, Text.Hex.value? b with
    | some high, some low => Char.ofNat (16 * high + low) :: percentDecode rest
    | _, _ => '%' :: percentDecode (a :: b :: rest)
  | c :: rest => c :: percentDecode rest
  | [] => []

/-- The components of a path, without those that say "here" and "up". -/
def normalize (kept : List String) : List String → List String
  | [] => kept.reverse
  | "." :: rest => normalize kept rest
  | ".." :: rest => normalize (if kept == [""] then kept else kept.tail) rest
  | component :: rest => normalize (component :: kept) rest

/-- The path of a target and its query, which begins with its question mark or is empty. -/
def cut (target : String) : String × String :=
  let cs := target.toList.takeWhile (· != '#')
  let path := cs.takeWhile (· != '?')
  let query := cs.drop path.length
  let normal := "/".intercalate (normalize [] (Text.pieces '/' (String.ofList path)))
  (String.ofList (percentDecode normal.toList),
    if query == ['?'] then "" else String.ofList query)

def withoutSlashes (path : String) : String :=
  String.ofList (path.toList.reverse.dropWhile (· == '/')).reverse

def ofPath (path : String) : Route :=
  match Operation.ofPath? path with
  | some op => .operation op
  | none =>
    match Operation.ofPath? (withoutSlashes path) with
    | some op => .slashed op
    | none => .nowhere

end Route

/-- Whether a content type announces JSON. Case and parameters do not matter. -/
def isJsonType (contentType : String) : Bool :=
  let essence := (contentType.toList.takeWhile (· != ';')).map Char.toLower
  let blank (c : Char) : Bool := c == ' ' || (0x09 ≤ c.toNat && c.toNat ≤ 0x0d)
  let stripped := ((essence.dropWhile blank).reverse.dropWhile blank).reverse
  match Text.pieces '/' (String.ofList stripped) with
  | ["application", kind] => kind == "json" || kind.endsWith "+json"
  | _ => false

/-- The JSON value in the body of a request; `none` if the body is not meant to be one. -/
def Request.json (r : Request) : Except Response (Option Json) :=
  if (r.contentType.map isJsonType).getD false then
    match Text.decodeAny? r.body with
    | none => .error .unreadableBody
    | some text =>
      match Json.ofText text with
      | .ok value => .ok (some value)
      | .error .oversized => .error .unreadableBody
      | .error (.malformed offset) => .error (.invalid [.malformedBody offset])
  else
    .ok none

/-- The members of the object that the body of a request has to be. -/
def Request.members (r : Request) : Except Response (List (String × Json)) :=
  if r.body.isEmpty then .error (.invalid [.missingBody])
  else do
    match ← r.json with
    | some (.object members) => return members
    | _ => .error (.invalid [.notAnObject])

/-- The field `code`, which has to be there and to be a string. -/
def codeField (members : List (String × Json)) : Except Problem String :=
  match Json.member? members "code" with
  | none => .error (.missingField "code")
  | some (.string code) => .ok code
  | some _ => .error (.notAString "code")

/-- The field `input`, which may be left out. -/
def inputField (app : Application) (members : List (String × Json)) : Except Problem String :=
  match Json.member? members "input" with
  | none => .ok app.defaultInput
  | some (.string text) => (app.checkInput text).mapError (.rejected "input")
  | some _ => .error (.notAString "input")

/-- Both fields of a run, or the problems with either. -/
def runFields (app : Application) (members : List (String × Json)) :
    Except (List Problem) (String × String) :=
  match codeField members, inputField app members with
  | .ok code, .ok input => .ok (code, input)
  | .error problem, .ok _ => .error [problem]
  | .ok _, .error problem => .error [problem]
  | .error first, .error second => .error [first, second]

end Brainfuck.Api
