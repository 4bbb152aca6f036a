import DocstringFormat.Toml.Number

/-!
TOML documents.

`Node` is a document under construction: a table knows how it came about, which decides whether
it may be extended.  `parse` reads a whole document into a table.
-/

set_option autoImplicit false

namespace DocstringFormat.Toml

inductive Origin where
  | defined
  | implied
  | dotted
deriving DecidableEq

inductive Node where
  | leaf (v : Value)
  | table (origin : Origin) (entries : List (Text × Node))
  | tables (items : List (List (Text × Node)))

abbrev Entries := List (Text × Node)

def setEntry (key : Text) (node : Node) : Entries → Entries
  | [] => [(key, node)]
  | (k, n) :: rest => if k = key then (k, node) :: rest else (k, n) :: setEntry key node rest

/-- Changes the table at the end of a path.  Missing tables on the way are made, as dotted or as
implied ones; a dotted path must not pass through a defined table. -/
def descend (isDotted : Bool) (change : Origin → Entries → Option Entries) :
    List Text → Origin → Entries → Option Entries
  | [], origin, entries => change origin entries
  | key :: path, _, entries =>
    match entries.lookup key with
    | none =>
      let origin := if isDotted then Origin.dotted else Origin.implied
      (descend isDotted change path origin []).map fun es =>
        setEntry key (.table origin es) entries
    | some (.leaf _) => none
    | some (.table origin inner) =>
      if isDotted ∧ origin = .defined then none
      else
        (descend isDotted change path origin inner).map fun es =>
          setEntry key (.table origin es) entries
    | some (.tables []) => none
    | some (.tables (last :: others)) =>
      (descend isDotted change path .defined last).map fun es =>
        setEntry key (.tables (es :: others)) entries

/-- Adds a value under a dotted key to a table. -/
def insertValue (path : List Text) (key : Text) (v : Value) (origin : Origin)
    (entries : Entries) : Option Entries :=
  descend true (fun o es =>
    if (o == .dotted) == path.isEmpty || (es.lookup key).isSome then none
    else some (es ++ [(key, .leaf v)])) path origin entries

def openTable (path : List Text) (key : Text) (root : Entries) : Option Entries :=
  descend false (fun _ es =>
    match es.lookup key with
    | none => some (setEntry key (.table .defined []) es)
    | some (.table .implied inner) => some (setEntry key (.table .defined inner) es)
    | some _ => none) path .defined root

def openArrayTable (path : List Text) (key : Text) (root : Entries) : Option Entries :=
  descend false (fun _ es =>
    match es.lookup key with
    | none => some (setEntry key (.tables [[]]) es)
    | some (.tables items) => some (setEntry key (.tables ([] :: items)) es)
    | some _ => none) path .defined root

def inCurrent (current : List Text) (change : Origin → Entries → Option Entries)
    (root : Entries) : Option Entries :=
  descend false change current .defined root

mutual

def Node.value : Node → Value
  | .leaf v => v
  | .table _ entries => .table (entriesValues entries)
  | .tables items => .array (tablesValues items).reverse

def entriesValues : List (Text × Node) → List (Text × Value)
  | [] => []
  | (k, n) :: rest => (k, n.value) :: entriesValues rest

def tablesValues : List (List (Text × Node)) → List Value
  | [] => []
  | entries :: rest => .table (entriesValues entries) :: tablesValues rest

end

/-- The depth up to which arrays, inline tables and keys may be nested. -/
def depthLimit : Nat := 79

def skipSpace (s : Text) : Text :=
  s.dropWhile isSpace

/-- The text after a comment, if one starts here; the line ending stays. -/
def skipComment? (s : Text) : Option Text :=
  match s with
  | '#' :: rest =>
    match rest.dropWhile isTextChar with
    | [] => some []
    | '\n' :: after => some ('\n' :: after)
    | '\r' :: '\n' :: after => some ('\r' :: '\n' :: after)
    | _ => none
  | _ => some s

def skipLineEnd? (s : Text) : Option Text :=
  match s with
  | [] => some []
  | '\n' :: rest => some rest
  | '\r' :: '\n' :: rest => some rest
  | _ => none

def endLine? (s : Text) : Option Text :=
  (skipComment? (skipSpace s)).bind skipLineEnd?

def skipBlank? : Nat → Text → Option Text
  | 0, s => some s
  | steps + 1, s =>
    match skipSpace s with
    | '\n' :: rest => skipBlank? steps rest
    | '\r' :: '\n' :: rest => skipBlank? steps rest
    | '#' :: rest => (skipComment? ('#' :: rest)).bind (skipBlank? steps)
    | t => some t

def isKeyChar (c : Char) : Bool :=
  c.isAlphanum || c == '_' || c == '-'

def simpleKey : Reader Text := fun s =>
  match s with
  | '"' :: rest => basicString rest
  | '\'' :: rest => literalString rest
  | _ =>
    let key := s.takeWhile isKeyChar
    if key.isEmpty then none else some (key, s.drop key.length)

/-- The parts of a key with dots between them, at most `parts` of them; blanks around the parts
are skipped. -/
def keyParts : Nat → Reader (List Text)
  | 0 => fun _ => none
  | parts + 1 => fun s => do
    let (key, rest) ← simpleKey (skipSpace s)
    match skipSpace rest with
    | '.' :: after => do
      let (keys, tail) ← keyParts parts after
      return (key :: keys, tail)
    | after => return ([key], after)

def dottedKey : Reader (List Text × Text) := fun s => do
  let (keys, rest) ← keyParts depthLimit s
  let last ← keys.getLast?
  return ((keys.dropLast, last), rest)

mutual

def value (depth : Nat) : Nat → Reader Value
  | 0 => fun _ => none
  | steps + 1 => fun s =>
    match s with
    | '[' :: rest =>
      match depth with
      | 0 => none
      | depth + 1 => (items depth steps rest).map fun (vs, after) => (.array vs, after)
    | '\x7b' :: rest =>
      match depth with
      | 0 => none
      | depth + 1 => do
        match skipSpace rest with
        | '\x7d' :: after => return (.table [], after)
        | _ =>
          let (es, after) ← pairs depth steps [] rest
          return (.table (entriesValues es), after)
    | '"' :: _ => (anyString s).map fun (t, after) => (.string t, after)
    | '\'' :: _ => (anyString s).map fun (t, after) => (.string t, after)
    | _ => scalar s

def items (depth : Nat) : Nat → Reader (List Value)
  | 0 => fun _ => none
  | steps + 1 => fun s => do
    let start ← skipBlank? (s.length + 1) s
    match start with
    | ']' :: after => return ([], after)
    | _ =>
      let (v, rest) ← value depth steps start
      let next ← skipBlank? (rest.length + 1) rest
      match next with
      | ',' :: after => do
        let (vs, tail) ← items depth steps after
        return (v :: vs, tail)
      | ']' :: after => return ([v], after)
      | _ => none

/-- The entries of an inline table, added to those that were read before. -/
def pairs (depth : Nat) : Nat → Entries → Reader Entries
  | 0 => fun _ _ => none
  | steps + 1 => fun entries s => do
    let ((path, key), rest) ← dottedKey s
    match rest with
    | '=' :: after => do
      let (v, tail) ← value depth steps (skipSpace after)
      let entries ← insertValue path key v .defined entries
      match skipSpace tail with
      | ',' :: more => pairs depth steps entries more
      | '\x7d' :: more => return (entries, more)
      | _ => none
    | _ => none

end

/-- A document as far as it is read: its root, and the table that was opened last. -/
structure Draft where
  root : Entries
  current : List Text

/-- Reads one line or header of a document. -/
def expression (d : Draft) (s : Text) : Option (Draft × Text) :=
  match s with
  | '[' :: '[' :: rest => do
    let ((path, key), after) ← dottedKey rest
    match after with
    | ']' :: ']' :: tail => do
      let root ← openArrayTable path key d.root
      let next ← endLine? tail
      return (⟨root, path ++ [key]⟩, next)
    | _ => none
  | '[' :: rest => do
    let ((path, key), after) ← dottedKey rest
    match after with
    | ']' :: tail => do
      let root ← openTable path key d.root
      let next ← endLine? tail
      return (⟨root, path ++ [key]⟩, next)
    | _ => none
  | _ => do
    let ((path, key), after) ← dottedKey s
    match after with
    | '=' :: rest => do
      let (v, tail) ← value depthLimit (2 * s.length + 2) (skipSpace rest)
      let root ← inCurrent d.current (insertValue path key v) d.root
      let next ← endLine? tail
      return (⟨root, d.current⟩, next)
    | _ => none

def documentFrom (d : Draft) : Nat → Text → Option Entries
  | 0, _ => none
  | steps + 1, s =>
    match skipBlank? (s.length + 1) s with
    | none => none
    | some [] => some d.root
    | some t =>
      match expression d t with
      | none => none
      | some (next, rest) => documentFrom next steps rest

def dropByteOrderMark : Text → Text
  | '\ufeff' :: rest => rest
  | s => s

def parse (s : Text) : Option (List (Text × Value)) :=
  (documentFrom ⟨[], []⟩ (s.length + 1) (dropByteOrderMark s)).map entriesValues

end DocstringFormat.Toml
