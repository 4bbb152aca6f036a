import DocstringFormat.Event
import DocstringFormat.Files.Tree

/-!
Sessions: what a run sees of the world, and what it leaves behind.

Any attempt to print or to write a file may be refused; a session says which ones are.
-/

set_option autoImplicit false

namespace DocstringFormat.Files

/-- The place where a run prints.  Attempts are numbered from zero. -/
structure Output where
  text : Text := []
  attempts : Nat := 0
  refusal : Nat → Option Text := fun _ => none
  flushRefusal : Option Text := none

structure Session where
  root : Tree
  cwd : Location
  input : Contents := .text []
  output : Output := {}
  writes : Nat := 0
  /-- Why an attempt to write a file is refused, if it is. -/
  writeRefusal : Nat → Option Text := fun _ => none
  events : List Event := []

/-- Why work on a file ended early. -/
inductive Failure where
  | error (cause : Error)
  | fault (cause : Fault)

/-- Work in a session, which keeps what was done before a failure. -/
abbrev Work := ExceptT Failure (StateM Session)

def stdinPath : Text := ['-']

namespace Session

def report (e : Event) : Work Unit :=
  modify fun w => { w with events := w.events ++ [e] }

def print (path s : Text) : Work Unit := do
  if s.isEmpty then return ()
  let w ← get
  match w.output.refusal w.output.attempts with
  | none =>
    set { w with output :=
      { w.output with text := w.output.text ++ s, attempts := w.output.attempts + 1 } }
  | some reason =>
    set { w with output := { w.output with attempts := w.output.attempts + 1 } }
    throw (.error (.io path reason))

def write (path s : Text) : Work Unit := do
  let w ← get
  set { w with writes := w.writes + 1 }
  match w.writeRefusal w.writes with
  | some reason => throw (.error (.io path reason))
  | none =>
    match writeText w.root w.cwd path s with
    | .ok root => modify fun w => { w with root := root }
    | .error cause => throw (.error (.io path cause.message))

/-- Reads a file, or all that is left of standard input. -/
def read (path : Text) : Work Text := do
  let w ← get
  let outcome :=
    if path = stdinPath then w.input.read else readText w.root w.cwd path
  if path = stdinPath then set { w with input := .text [] }
  match outcome with
  | .ok s => return s
  | .error cause => throw (.error (.io path cause.message))

/-- Takes over the events and the value of a computation. -/
def trace {α : Type} (x : Traced α) : Work α := do
  modify fun w => { w with events := w.events ++ x.events }
  match x.result with
  | .ok a => return a
  | .error cause => throw (.fault cause)

end Session

end DocstringFormat.Files
