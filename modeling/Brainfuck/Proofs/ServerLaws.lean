import Brainfuck.Api

/-!
The server keeps the laws of a framework (`server_lawful`), whatever application it is given. A
request that brings the texts for an operation gets past the routes and the reading of its body
(`serve_of_membersFor?`), and the fields of that body are then the texts. So the operation is
carried out on them, once the input has been checked (`answer?_of_parseText?`,
`answer?_of_input`).
-/

set_option autoImplicit false
set_option relaxedAutoImplicit false

namespace Brainfuck

namespace Api

variable {r : Request} {operation : Operation} {members : List (String × Json)}
  {code input : String}

theorem serve_of_membersFor? (hr : r.membersFor? operation = some members) (app : Application) :
    serve app r = perform app operation members := by
  unfold Request.membersFor? at hr
  unfold serve
  dsimp only
  -- Without their names here, the three tests would be computed when they are split.
  generalize (r.method.toUpper == "POST") = post at hr ⊢
  generalize Route.ofPath (Route.cut r.target).1 = route at hr ⊢
  generalize r.members = body at hr ⊢
  split at hr
  · split at hr
    · rename_i heq
      subst heq
      cases hr
      simp only [if_true]
    · cases hr
  · cases hr

theorem exists_members_of_parseText? (hr : r.parseText? = some code) :
    ∃ members, r.membersFor? .parse = some members ∧
      Json.member? members "code" = some (.string code) := by
  obtain ⟨members, hmembers, hcode⟩ := Option.bind_eq_some_iff.mp hr
  refine ⟨members, hmembers, ?_⟩
  split at hcode
  · rename_i hmember
    cases hcode
    exact hmember
  · cases hcode

theorem exists_members_of_runTexts? {input? : Option String}
    (hr : r.runTexts? = some (code, input?)) :
    ∃ members, r.membersFor? .run = some members ∧
      Json.member? members "code" = some (.string code) ∧
      Json.member? members "input" = input?.map .string := by
  obtain ⟨members, hmembers, htexts⟩ := Option.bind_eq_some_iff.mp hr
  refine ⟨members, hmembers, ?_⟩
  split at htexts
  · rename_i hcode hinput
    cases htexts
    exact ⟨hcode, hinput⟩
  · rename_i hcode hinput
    cases htexts
    exact ⟨hcode, hinput⟩
  · cases htexts

theorem answer?_of_parseText? (hr : r.parseText? = some code) (app : Application) :
    server.answer? app r = (app.parse code).map server.send := by
  obtain ⟨members, hmembers, hcode⟩ := exists_members_of_parseText? hr
  simp only [server, serve_of_membersFor? hmembers, perform, codeField, hcode, Option.map_map]
  rfl

theorem answer?_of_default (hr : r.runTexts? = some (code, none)) (app : Application) :
    server.answer? app r = (app.run code app.defaultInput).map server.send := by
  obtain ⟨members, hmembers, hcode, hinput⟩ := exists_members_of_runTexts? hr
  simp only [server, serve_of_membersFor? hmembers, perform, runFields, codeField, inputField,
    hcode, hinput, Option.map_none, Option.map_map]
  rfl

/-- An input is what the application is asked about, and its run gets what it makes of it. -/
theorem answer?_of_input (hr : r.runTexts? = some (code, some input)) (app : Application) :
    server.answer? app r =
      match app.checkInput input with
      | .ok accepted => (app.run code accepted).map server.send
      | .error reason => some (Response.invalid [.rejected "input" reason]).answer := by
  obtain ⟨members, hmembers, hcode, hinput⟩ := exists_members_of_runTexts? hr
  simp only [server, serve_of_membersFor? hmembers, perform, runFields, codeField, inputField,
    hcode, hinput, Option.map_some]
  cases app.checkInput input with
  | ok accepted => exact Option.map_map Response.answer .result (app.run code accepted)
  | error reason => rfl

theorem server_lawful : server.Lawful where
  answer?_parse {app r code} hr := answer?_of_parseText? hr app
  answer?_default {app r code} hr := answer?_of_default hr app
  answer?_accepted {app r code input accepted} hr hcheck := by
    rw [answer?_of_input hr, hcheck]
  answer?_rejected {app r code input reason} hr hcheck := by
    refine ⟨(Response.invalid [.rejected "input" reason]).answer, ?_, rfl⟩
    rw [answer?_of_input hr, hcheck]
  send_returned {result fields} hfields := by
    cases result with
    | parsed report =>
      cases hfields
      rfl
    | ran output =>
      cases hfields
      rfl
    | refused status detail => cases hfields
    | crashed => cases hfields
  send_refused _ := rfl
  status_send_crashed := rfl

end Api

end Brainfuck
