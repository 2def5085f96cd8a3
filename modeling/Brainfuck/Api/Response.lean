import Brainfuck.Api.Framework

/-!
What the server answers. Every answer has a status and, most of them, a JSON
body; the answers to refused requests say which part of the request is at
fault.
-/

set_option autoImplicit false
set_option relaxedAutoImplicit false

namespace Brainfuck.Api

/-- What is wrong with the body of a request. -/
inductive Problem where
  | missingBody
  | malformedBody (offset : Nat)
  | notAnObject
  | missingField (name : String)
  | notAString (name : String)
  /-- The application has rejected the value of a field. -/
  | rejected (name reason : String)

namespace Problem

def kind : Problem → String
  | .missingBody => "missing"
  | .malformedBody _ => "json_invalid"
  | .notAnObject => "model_attributes_type"
  | .missingField _ => "missing"
  | .notAString _ => "string_type"
  | .rejected _ _ => "value_error"

/-- Where the problem lies, from the outside in. -/
def location : Problem → List Json
  | .missingBody => [.string "body"]
  | .malformedBody offset => [.string "body", .integer offset]
  | .notAnObject => [.string "body"]
  | .missingField name => [.string "body", .string name]
  | .notAString name => [.string "body", .string name]
  | .rejected name _ => [.string "body", .string name]

def message : Problem → String
  | .missingBody => "Field required"
  | .malformedBody _ => "JSON decode error"
  | .notAnObject => "Input should be a valid dictionary or object to extract fields from"
  | .missingField _ => "Field required"
  | .notAString _ => "Input should be a valid string"
  | .rejected _ reason => "Value error, " ++ reason

/-- The entry for a problem, as far as it says what is wrong and where. The copy of what was
sent and the context that a full entry also has are left out. -/
def json (p : Problem) : Json :=
  .object [("type", .string p.kind), ("loc", .array p.location), ("msg", .string p.message)]

end Problem

inductive Response where
  | result (result : Result)
  /-- The body is not text, or holds a number too long to read. -/
  | unreadableBody
  | invalid (problems : List Problem)
  | redirect (location : String)
  | notFound
  | methodNotAllowed

namespace Response

def status : Response → Nat
  | .result (.parsed _) => 200
  | .result (.ran _) => 200
  | .result (.refused status _) => status
  | .result .crashed => 500
  | .redirect _ => 307
  | .unreadableBody => 400
  | .notFound => 404
  | .methodNotAllowed => 405
  | .invalid _ => 422

/-- The JSON body of an answer, if it has one. -/
def body? : Response → Option Json
  | .result (.refused _ detail) => some (.object [("detail", detail)])
  | .result r => r.fields?.map .object
  | .unreadableBody => some (.object [("detail", .string "There was an error parsing the body")])
  | .invalid problems => some (.object [("detail", .array (problems.map Problem.json))])
  | .redirect _ => none
  | .notFound => some (.object [("detail", .string "Not Found")])
  | .methodNotAllowed => some (.object [("detail", .string "Method Not Allowed")])

def answer (response : Response) : Answer :=
  ⟨response.status, response.body?⟩

/-- The methods that the path of the request takes, if the one used is not among them. -/
def allow? : Response → Option String
  | .methodNotAllowed => some "POST"
  | _ => none

def location? : Response → Option String
  | .redirect location => some location
  | _ => none

end Response

end Brainfuck.Api
