import DocstringFormat.Diff.Unified
import DocstringFormat.Files.Session
import DocstringFormat.Source.Format

/-!
Runs over files: which files are formatted, and what is done with the result.
-/

set_option autoImplicit false

namespace DocstringFormat.Files

structure RunOptions where
  inPlace : Bool := false
  check : Bool := false
  diff : Bool := false
  recursive : Bool := false
  /-- Paths with one of these fragments are skipped. -/
  exclude : List Text := []
deriving DecidableEq

def filesAt (r : RunOptions) (root : Tree) (cwd : Location) (path : Text) : List Text :=
  if path = stdinPath then [path]
  else
    match lookup root cwd path with
    | some (.directory children) =>
      if r.recursive then
        (Tree.pythonFiles path (.directory children)).filter fun p => !isExcluded r.exclude p
      else []
    | _ => if isExcluded r.exclude path then [] else [path]

def collectEvents (r : RunOptions) (root : Tree) (cwd : Location) (path : Text) : List Event :=
  if path ≠ stdinPath ∧ isDirectory root cwd path ∧ !r.recursive then [.skippedDirectory path]
  else []

def collectFiles (r : RunOptions) (root : Tree) (cwd : Location) (paths : List Text) : List Text :=
  paths.flatMap (filesAt r root cwd)

/-- Reports and stores a formatted source, and says whether it differs from what was there. -/
def publish (r : RunOptions) (path source formatted : Text) : Work Bool := do
  let changed := formatted != source
  if r.check && changed then Session.print path (path ++ ['\n'])
  if r.check && !r.inPlace then return changed
  if r.diff && changed then Session.print path (Diff.unified source formatted path)
  if r.inPlace && path != stdinPath then
    if changed then
      Session.write path formatted
      Session.report (.reformatted path)
  else if !r.diff then Session.print path formatted
  Session.report (.processed path changed)
  return changed

def processFile (o : Options) (r : RunOptions) (path : Text) : Work Bool := do
  let source ← Session.read path
  let formatted ← Session.trace (Source.format o source)
  publish r path source formatted

structure Summary where
  changed : List Text := []
  /-- The number of files that could not be processed. -/
  errors : Nat := 0
  fault : Option Fault := none
deriving DecidableEq

namespace Summary

def faultCode : Nat := 101

/-- The exit code of a run: one after an error, and three when a check finds changes. -/
def exitCode (s : Summary) (r : RunOptions) : Nat :=
  if s.fault.isSome then faultCode
  else if 0 < s.errors then 1
  else if r.check && !s.changed.isEmpty then 3
  else 0

end Summary

/-- Formats one file and counts the outcome.  An error does not stop the run; a fault does. -/
def runFile (o : Options) (r : RunOptions) (s : Summary) (path : Text) :
    StateM Session Summary := do
  if s.fault.isSome then return s
  match ← (processFile o r path).run with
  | .ok true => return { s with changed := s.changed ++ [path] }
  | .ok false => return s
  | .error (.error cause) =>
    modify fun w => { w with events := w.events ++ [.failed cause] }
    return { s with errors := s.errors + 1 }
  | .error (.fault cause) => return { s with fault := some cause }

def run (o : Options) (r : RunOptions) (paths : List Text) : StateM Session Summary := do
  let w ← get
  set { w with events := w.events ++ paths.flatMap (collectEvents r w.root w.cwd) }
  let s ← (collectFiles r w.root w.cwd paths).foldlM (runFile o r) {}
  if s.fault.isNone then
    match w.output.flushRefusal with
    | none => pure ()
    | some reason => modify fun w => { w with events := w.events ++ [.flushFailed reason] }
  return s

end DocstringFormat.Files
