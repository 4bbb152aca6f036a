import DocstringFormat.Docstring.Subject
import DocstringFormat.Error
import DocstringFormat.Fault

/-!
Events: what the formatter reports while it works.

`Traced` is a computation that reports events and may end in a fault; the events before a fault
are kept.
-/

set_option autoImplicit false

namespace DocstringFormat

open Docstring (Subject)

inductive Level where
  | trace
  | debug
  | info
  | warn
  | error
deriving DecidableEq

namespace Level

def label : Level → Text
  | trace => "TRACE".toList
  | debug => "DEBUG".toList
  | info => "INFO".toList
  | warn => "WARN".toList
  | error => "ERROR".toList

def isShown (verbose : Bool) : Level → Bool
  | trace | debug => false
  | info => verbose
  | warn | error => true

end Level

inductive LeaveReason where
  | unsupported (cause : Error)
  | nestedQuotes
  | doctest
  | loneLink
  | sectionTitle
  | adornedDescription
  | listLikeSummary
deriving DecidableEq

inductive Event where
  | foundDocstring (subject : Subject) (row : Nat)
  | leftDocstring (reason : LeaveReason)
  | splitDescription (links fields : Nat)
  | rewroteDocstring (row : Nat)
  | leftSource (cause : Error)
  | skippedDirectory (path : Text)
  | reformatted (path : Text)
  | processed (path : Text) (changed : Bool)
  | failed (cause : Error)
  | flushFailed (reason : Text)
  | loadedConfiguration (path : Text)
  | aborted (cause : Error)
deriving DecidableEq

namespace LeaveReason

def message : LeaveReason → Text
  | unsupported cause => "leaving literal unchanged err=".toList ++ cause.message
  | nestedQuotes => "docstring contains nested triple quotes".toList
  | doctest => "docstring starts with a doctest".toList
  | loneLink => "docstring is a lone link".toList
  | sectionTitle => "summary is a section title".toList
  | adornedDescription => "description starts with a section adornment".toList
  | listLikeSummary => "summary is list-like or holds a directive".toList

end LeaveReason

namespace Event

def level : Event → Level
  | foundDocstring _ _ | splitDescription _ _ => .trace
  | leftDocstring _ | rewroteDocstring _ | leftSource _ | processed _ _ | flushFailed _
  | loadedConfiguration _ => .debug
  | reformatted _ => .info
  | skippedDirectory _ => .warn
  | failed _ | aborted _ => .error

def body : Event → Text
  | foundDocstring subject row =>
    "found docstring kind=".toList ++ subject.name ++ " row=".toList ++ Error.digits row
  | leftDocstring reason => reason.message
  | splitDescription links fields =>
    "splitting description urls=".toList ++ Error.digits links ++ " fields=".toList ++
      Error.digits fields
  | rewroteDocstring row => "rewrote docstring row=".toList ++ Error.digits row
  | leftSource cause => "leaving source unchanged err=".toList ++ cause.message
  | skippedDirectory path => "skipping directory, pass --recursive to descend path=".toList ++ path
  | reformatted path => "reformatted path=".toList ++ path
  | processed path changed =>
    "processed path=".toList ++ path ++ " changed=".toList ++
      (if changed then "true".toList else "false".toList)
  | failed cause => "failed to format err=".toList ++ cause.message
  | flushFailed reason => "failed to flush output err=".toList ++ reason
  | loadedConfiguration path => "loaded configuration path=".toList ++ path
  | aborted cause => "aborting err=".toList ++ cause.message

def message (e : Event) : Text :=
  e.level.label ++ [' '] ++ e.body

end Event

structure Traced (α : Type) where
  events : List Event
  result : Except Fault α

namespace Traced

variable {α β : Type}

def pure (a : α) : Traced α :=
  ⟨[], .ok a⟩

def bind (x : Traced α) (f : α → Traced β) : Traced β :=
  match x.result with
  | .ok a => ⟨x.events ++ (f a).events, (f a).result⟩
  | .error fault => ⟨x.events, .error fault⟩

instance : Monad Traced where
  pure := Traced.pure
  bind := Traced.bind

def report (e : Event) : Traced Unit :=
  ⟨[e], .ok ()⟩

def reportAll (es : List Event) : Traced Unit :=
  ⟨es, .ok ()⟩

def ofExcept (x : Except Fault α) : Traced α :=
  ⟨[], x⟩

end Traced

end DocstringFormat
