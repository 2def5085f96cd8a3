import Brainfuck.Api.Request

/-!
The server as it runs: a framework of its own that routes requests, checks
their bodies and carries the operations of an application out.
-/

set_option autoImplicit false
set_option relaxedAutoImplicit false

namespace Brainfuck.Api

/-- Carries out an operation on the members of a body. -/
def perform (app : Application) (operation : Operation) (members : List (String × Json)) :
    Option Response :=
  match operation with
  | .parse =>
    match codeField members with
    | .ok code => (app.parse code).map .result
    | .error problem => some (.invalid [problem])
  | .run =>
    match runFields app members with
    | .ok (code, input) => (app.run code input).map .result
    | .error problems => some (.invalid problems)

/-- The response to a request; `none` if an operation does not come to an end. -/
def serve (app : Application) (r : Request) : Option Response :=
  let (path, query) := Route.cut r.target
  match Route.ofPath path with
  | .nowhere => some .notFound
  | .slashed operation =>
    some (.redirect ("http://" ++ r.host ++ operation.path ++ query))
  | .operation operation =>
    if r.method.toUpper == "POST" then
      match r.members with
      | .ok members => perform app operation members
      | .error response => some response
    else
      some .methodNotAllowed

/-- The response of this server; `none` if `fuel` does not suffice for the run. -/
def handle (fuel : Nat) (r : Request) : Option Response :=
  serve (application fuel) r

/-- The body that is sent with an answer; a request that asks for the head alone gets none. -/
def sentBody (r : Request) (response : Response) : Option Json :=
  if r.method.toUpper == "HEAD" then none else response.body?

/-- The members of the body of a request for an operation. -/
def Request.membersFor? (r : Request) (operation : Operation) : Option (List (String × Json)) :=
  match r.method.toUpper == "POST", Route.ofPath (Route.cut r.target).1, r.members with
  | true, .operation route, .ok members => if route = operation then some members else none
  | _, _, _ => none

def Request.parseText? (r : Request) : Option String :=
  (r.membersFor? .parse).bind fun members ↦
    match Json.member? members "code" with
    | some (.string code) => some code
    | _ => none

def Request.runTexts? (r : Request) : Option (String × Option String) :=
  (r.membersFor? .run).bind fun members ↦
    match Json.member? members "code", Json.member? members "input" with
    | some (.string code), some (.string input) => some (code, some input)
    | some (.string code), none => some (code, none)
    | _, _ => none

/-- The server, as a framework for any application. -/
def server : Framework Request where
  parseText? := Request.parseText?
  runTexts? := Request.runTexts?
  send result := (Response.result result).answer
  answer? app r := (serve app r).map Response.answer

end Brainfuck.Api
