import DocstringFormat.Files.Tree
import Mathlib.Logic.Function.Basic

/-!
File trees as maps from locations to contents.

A file tree is looked at through the files at its locations (`fileAt`) and through which locations
are there at all and are files (`kindAt`).  Replacing a file changes the first in one place
(`fileAt_insert`) and the second not at all (`kindAt_insert`), so that every path keeps its meaning
(`resolve_congr`).
-/

set_option autoImplicit false

namespace DocstringFormat.Files

private theorem lookup_setChild (name n : Text) (t : Tree) (children : List (Text × Tree)) :
    (setChild name t children).lookup n = if n = name then some t else children.lookup n := by
  induction children with
  | nil =>
    by_cases hn : n = name
    · simp [setChild, hn]
    · have hbeq : (n == name) = false := by simpa using hn
      simp [setChild, List.lookup_cons, hn, hbeq]
  | cons child rest ih =>
    obtain ⟨m, u⟩ := child
    rw [setChild]
    split
    · rename_i hm
      subst hm
      by_cases hn : n = m
      · simp [hn]
      · have hbeq : (n == m) = false := by simpa using hn
        simp [List.lookup_cons, hn, hbeq]
    · rename_i hm
      by_cases hn : n = m
      · subst hn
        simp [hm]
      · have hbeq : (n == m) = false := by simpa using hn
        simp [List.lookup_cons, hbeq, ih]

namespace Tree

def isFile : Tree → Bool
  | .file _ => true
  | .directory _ => false

/-- The contents of the file at a location. -/
def fileAt (t : Tree) (location : Location) : Option Contents :=
  match t.get? location with
  | some (.file contents) => some contents
  | _ => none

/-- Whether what stands at a location is a file, if anything stands there. -/
def kindAt (t : Tree) (location : Location) : Option Bool :=
  (t.get? location).map isFile

private theorem fileAt_eq_some {t : Tree} {location : Location} {contents : Contents} :
    t.fileAt location = some contents ↔ t.get? location = some (.file contents) := by
  unfold fileAt
  split
  · rename_i h
    simp [h]
  · rename_i h
    simp only [reduceCtorEq, false_iff]
    exact h contents

@[simp] theorem get?_file_cons (contents : Contents) (name : Text) (rest : Location) :
    (Tree.file contents).get? (name :: rest) = none := rfl

@[simp] theorem get?_directory_cons (children : List (Text × Tree)) (name : Text)
    (rest : Location) :
    (Tree.directory children).get? (name :: rest) =
      (children.lookup name).bind fun child => child.get? rest := rfl

private theorem exists_child {t u : Tree} {name : Text} {rest : Location}
    (h : t.get? (name :: rest) = some u) :
    ∃ children child, t = .directory children ∧ children.lookup name = some child ∧
      child.get? rest = some u := by
  cases t with
  | file contents => simp at h
  | directory children =>
    rw [get?_directory_cons] at h
    obtain ⟨child, hchild, hrest⟩ := Option.bind_eq_some_iff.mp h
    exact ⟨children, child, rfl, hchild, hrest⟩

variable {t : Tree} {location : Location} {old : Contents}

private theorem get?_insert (new : Contents) (h : t.get? location = some (.file old))
    (other : Location) :
    other = location ∧ (t.insert (.file new) location).get? other = some (.file new) ∨
      other ≠ location ∧
        ((t.insert (.file new) location).get? other = t.get? other ∨
          ∃ before after, t.get? other = some (.directory before) ∧
            (t.insert (.file new) location).get? other = some (.directory after)) := by
  induction location generalizing t other with
  | nil =>
    obtain rfl : t = .file old := by simpa [get?] using h
    cases other with
    | nil => exact Or.inl ⟨rfl, rfl⟩
    | cons name rest => exact Or.inr ⟨by simp, Or.inl rfl⟩
  | cons name rest ih =>
    obtain ⟨children, child, rfl, hchild, hrest⟩ := exists_child h
    cases other with
    | nil => exact Or.inr ⟨by simp, Or.inr ⟨children, _, rfl, rfl⟩⟩
    | cons n more =>
      simp only [insert, get?_directory_cons, lookup_setChild]
      by_cases hn : n = name
      · subst hn
        simpa [hchild] using ih hrest more
      · exact Or.inr ⟨by simp [hn], Or.inl (by simp [hn])⟩

private theorem fileAt_insert (new : Contents) (h : t.get? location = some (.file old)) :
    (t.insert (.file new) location).fileAt = Function.update t.fileAt location (some new) := by
  funext other
  obtain ⟨rfl, hself⟩ | ⟨hother, heq | ⟨before, after, hbefore, hafter⟩⟩ := get?_insert new h other
  · rw [Function.update_self, fileAt_eq_some, hself]
  · rw [Function.update_of_ne hother, fileAt, heq, fileAt]
  · rw [Function.update_of_ne hother, fileAt, hafter, fileAt, hbefore]

private theorem kindAt_insert (new : Contents) (h : t.get? location = some (.file old)) :
    (t.insert (.file new) location).kindAt = t.kindAt := by
  funext other
  obtain ⟨rfl, hself⟩ | ⟨-, heq | ⟨before, after, hbefore, hafter⟩⟩ := get?_insert new h other
  · rw [kindAt, hself, kindAt, h]
    rfl
  · rw [kindAt, heq, kindAt]
  · rw [kindAt, hafter, kindAt, hbefore]
    rfl

end Tree

section Paths

variable {root after : Tree} {cwd : Location} {path s : Text}

private theorem resolveFrom_congr (h : after.kindAt = root.kindAt) (here : Location)
    (names : List Text) :
    resolveFrom after here names = resolveFrom root here names := by
  induction names generalizing here with
  | nil => rfl
  | cons name rest ih =>
    have hhere : (after.get? here).map Tree.isFile = (root.get? here).map Tree.isFile :=
      congrFun h here
    have hnext : (after.get? (here ++ [name])).isNone = (root.get? (here ++ [name])).isNone := by
      have hkind := congrArg Option.isNone (congrFun h (here ++ [name]))
      simpa [Tree.kindAt] using hkind
    rw [resolveFrom, resolveFrom, hnext]
    cases hroot : root.get? here with
    | none =>
      rw [hroot] at hhere
      rw [Option.map_eq_none_iff.mp hhere]
    | some u =>
      rw [hroot] at hhere
      obtain ⟨v, hafter, hkind⟩ := Option.map_eq_some_iff.mp hhere
      rw [hafter]
      cases u with
      | file old =>
        cases v with
        | file new => rfl
        | directory children => cases hkind
      | directory children =>
        cases v with
        | file new => cases hkind
        | directory children' => simp only [ih]

theorem resolve_congr (h : after.kindAt = root.kindAt) (cwd : Location) (path : Text) :
    resolve after cwd path = resolve root cwd path := by
  unfold resolve
  split
  · rfl
  · split
    · rfl
    · exact resolveFrom_congr h _ _
    · exact resolveFrom_congr h _ _

theorem readText_eq_ok :
    readText root cwd path = .ok s ↔
      ∃ location, resolve root cwd path = .ok location ∧
        root.fileAt location = some (.text s) := by
  unfold readText
  cases resolve root cwd path with
  | error cause => simp [bind, Except.bind]
  | ok location =>
    simp only [bind, Except.bind, Except.ok.injEq, exists_eq_left', Tree.fileAt]
    cases root.get? location with
    | none => simp
    | some t =>
      cases t with
      | directory children => simp
      | file contents => cases contents <;> simp [Contents.read]

theorem exists_of_writeText {location : Location} {old : Contents}
    (hpath : resolve root cwd path = .ok location) (hfile : root.fileAt location = some old)
    (s : Text) :
    ∃ after, writeText root cwd path s = .ok after ∧
      after.fileAt = Function.update root.fileAt location (some (.text s)) ∧
      after.kindAt = root.kindAt := by
  have hget := Tree.fileAt_eq_some.mp hfile
  refine ⟨root.insert (.file (.text s)) location, ?_, Tree.fileAt_insert _ hget,
    Tree.kindAt_insert _ hget⟩
  simp [writeText, hpath, hget, bind, Except.bind]

end Paths

end DocstringFormat.Files
