import Brainfuck.Options.Manual
import Brainfuck.Text.Integer

/-!
The launcher of the server: it reads from the command line where to listen,
how much to log and whether to restart when sources change.
-/

set_option autoImplicit false
set_option relaxedAutoImplicit false

namespace Brainfuck.Server

/-- What the server is started with. A value given as the bare mark `--` is missing. -/
structure Settings where
  host : Option String
  port : Option Int
  logLevel : Option String
  reload : Bool

/-- The application that the server serves, by the name under which it is found again
after a restart. -/
def application : String := "treebf.webui.app:create_app"

def defaults : Settings := ⟨some "127.0.0.1", some 8000, some "info", false⟩

def logLevels : List String := ["critical", "error", "warning", "info", "debug", "trace"]

def setHost (value : Option String) (s : Settings) :
    Except (Options.ValueError × String) Settings :=
  .ok { s with host := value }

def setPort (value : Option String) (s : Settings) :
    Except (Options.ValueError × String) Settings :=
  match value with
  | none => .ok { s with port := none }
  | some text =>
    match Text.Integer.read? text with
    | some port => .ok { s with port := some port }
    | none => .error (.integer, text)

def setLogLevel (value : Option String) (s : Settings) :
    Except (Options.ValueError × String) Settings :=
  match value with
  | none => .ok { s with logLevel := none }
  | some text =>
    if logLevels.contains text then .ok { s with logLevel := some text }
    else .error (.choice logLevels, text)

def grammar : Options.Grammar Settings where
  options :=
    [⟨["-h", "--help"], .help⟩, ⟨["--host"], .value setHost⟩,
      ⟨["--port"], .value setPort⟩,
      ⟨["--log-level"], .value setLogLevel⟩,
      ⟨["--reload"], .flag fun s ↦ { s with reload := true }⟩]
  positional := none

def manual : Options.Manual where
  program := "python -m treebf.webui"
  usage :=
    "usage: python -m treebf.webui [-h] [--host HOST] [--port PORT]\n" ++
    "                              [--log-level \x7bcritical,error,warning,info,debug,trace\x7d]\n" ++
    "                              [--reload]\n"
  details :=
    "\nServe the treebf parse/run API\n\noptions:\n" ++
    "  -h, --help            show this help message and exit\n" ++
    "  --host HOST           Bind address (default: 127.0.0.1)\n" ++
    "  --port PORT           Port to listen on (default: 8000)\n" ++
    "  --log-level \x7bcritical,error,warning,info,debug,trace\x7d\n" ++
    "                        uvicorn log level (default: info)\n" ++
    "  --reload              Restart the server when package sources change\n"

/-- The settings that a command line asks for, or what to say instead. -/
def configure (arguments : List String) : Except Options.Notice Settings :=
  match Options.read grammar defaults arguments with
  | .ok (settings, _) => .ok settings
  | .error stop => .error (manual.notice stop)

end Brainfuck.Server
