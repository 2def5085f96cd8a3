import Brainfuck.Api.Application

/-!
Web frameworks, as an application meets them. A framework reads requests, looks for the
texts that an operation asks for, has the input checked and carries the operation out, and
makes an answer of what comes of it. How a request is written and routed, and what is said
about one that does not bring the texts, is its own affair.

`Framework.Lawful` gathers what an application relies on. Nothing in it is about the
application of this server: the laws hold of whatever the framework is given.
-/

set_option autoImplicit false
set_option relaxedAutoImplicit false

namespace Brainfuck.Api

/-- What is sent back: a status, and a JSON body unless there is none. -/
structure Answer where
  status : Nat
  body? : Option Json

/-- A framework whose requests are of type `ρ`. -/
structure Framework (ρ : Type) where
  /-- The code of a request to parse, if it is a string. -/
  parseText? : ρ → Option String
  /-- The code and the input of a request to run, if they are strings. The input may be left
  out. -/
  runTexts? : ρ → Option (String × Option String)
  /-- What is sent for the result of an operation. -/
  send : Result → Answer
  /-- The answer to a request; `none` if the operation does not come to an end. -/
  answer? : Application → ρ → Option Answer

namespace Framework

variable {ρ : Type}

/-- The framework passes strings on, has an input checked before a run, and tells good ends,
refusals, rejected inputs and crashes apart by the status. -/
structure Lawful (F : Framework ρ) : Prop where
  answer?_parse {app : Application} {r : ρ} {code : String} :
    F.parseText? r = some code → F.answer? app r = (app.parse code).map F.send
  answer?_default {app : Application} {r : ρ} {code : String} :
    F.runTexts? r = some (code, none) →
      F.answer? app r = (app.run code app.defaultInput).map F.send
  answer?_accepted {app : Application} {r : ρ} {code input accepted : String} :
    F.runTexts? r = some (code, some input) → app.checkInput input = .ok accepted →
      F.answer? app r = (app.run code accepted).map F.send
  /-- A rejected input never gets to the run. What is said about it is up to the framework. -/
  answer?_rejected {app : Application} {r : ρ} {code input reason : String} :
    F.runTexts? r = some (code, some input) → app.checkInput input = .error reason →
      ∃ answer, F.answer? app r = some answer ∧ answer.status = 422
  send_returned {result : Result} {fields : List (String × Json)} :
    result.fields? = some fields → F.send result = ⟨200, some (.object fields)⟩
  /-- Statuses below those of errors include some that allow no body. -/
  send_refused {status : Nat} {detail : Json} :
    400 ≤ status → F.send (.refused status detail) = ⟨status, some (.object [("detail", detail)])⟩
  status_send_crashed : (F.send .crashed).status = 500

end Framework

end Brainfuck.Api
