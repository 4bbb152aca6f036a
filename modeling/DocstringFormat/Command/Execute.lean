import DocstringFormat.Command.Grammar
import DocstringFormat.Files.Settings

/-!
Execution of a command line in a session.
-/

set_option autoImplicit false

namespace DocstringFormat.Command

open Files (Session Location)

def usageCode : Nat := 2

def settingsCode : Nat := 1

def versionText : Text := "pydocfmt 0.1.0\n".toList

def usageText : Text := "Usage: pydocfmt [OPTIONS] <FILES>...\n".toList

def OptionSpec.helpText (spec : OptionSpec) : Text :=
  let lead := match spec.short with
    | some c => "  -".toList ++ [c] ++ ", --".toList
    | none => "      --".toList
  lead ++ spec.name ++ spec.values.flatMap (fun value => " <".toList ++ value ++ ['>']) ++ ['\n'] ++
    "          ".toList ++ spec.purpose ++ ['\n']

def helpText : Text :=
  "A PEP 257 docstring formatter for Python source files\n\n".toList ++ usageText ++
    "\nArguments:\n  <FILES>...  Files to format; `-` reads standard input\n".toList ++
    "\nOptions:\n".toList ++ optionSpecs.flatMap OptionSpec.helpText

def absolutePath (location : Location) : Text :=
  '/' :: Text.join ['/'] location

/-- The configuration file of a command line: the one it names, or the nearest one. -/
def configPath? (a : Arguments) (w : Session) : Option Text :=
  a.config <|> Files.findConfig? w.root w.cwd (absolutePath w.cwd)

def config (a : Arguments) (w : Session) : Except Error Config :=
  match configPath? a w with
  | none => .ok {}
  | some path => Files.loadConfig w.root w.cwd path

def settings (a : Arguments) (w : Session) : Except Error (Options × Files.RunOptions) := do
  let c ← config a w
  return (← a.options c, a.runOptions c)

/-- Runs what a command line asks for, and answers the exit code. -/
def perform (a : Arguments) : StateM Session Nat := do
  match settings a (← get) with
  | .error cause =>
    modify fun w => { w with events := w.events ++ [.aborted cause] }
    return settingsCode
  | .ok (o, r) => return (← Files.run o r a.files).exitCode r

def answer (s : Text) : StateM Session Nat := do
  let _ ← (Session.print Files.stdinPath s).run
  return 0

/-- The reports that the user of a command line sees after its session. -/
def reports (args : List Text) (w : Session) : Text :=
  let shown (verbose : Bool) : Text :=
    (w.events.filter fun e => e.level.isShown verbose).flatMap fun e => e.message ++ ['\n']
  match parse args with
  | .ok a => shown a.verbose
  | .error .usage => usageText ++ "\nFor more information, try '--help'.\n".toList
  | .error _ => shown false

/-- Executes a command line, and answers the exit code. -/
def execute (args : List Text) : StateM Session Nat :=
  match parse args with
  | .ok a => perform a
  | .error .usage => return usageCode
  | .error .help => answer helpText
  | .error .version => answer versionText

end DocstringFormat.Command
