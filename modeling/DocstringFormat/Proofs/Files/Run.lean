import DocstringFormat.Proofs.Docstring.Layout
import DocstringFormat.Proofs.Files.Process
import Mathlib.Data.List.TakeWhile

/-!
What a run does to the files.

A run processes the collected files one after the other (`run_eq`).  Each step is one of the cases
of `Processed`; what they have in common holds of the whole run by induction over the files: only
collected files change, and without the order to work in place none does (`keptBut_stateAfter`).
A file counts as an error exactly if it cannot be read or one of its own attempts is refused
(`Fails`), and the next file is processed all the same.  Where no attempt is refused the tally does
not depend on what is done with the files (`tally_run`).
-/

set_option autoImplicit false

namespace DocstringFormat.Files

section Collecting

private theorem getLast?_joinPath {name : Text} (hname : isPythonName name = true) (path : Text) :
    (joinPath path name).getLast? = some 'y' := by
  have hlast : name.getLast? = some 'y' := by
    unfold isPythonName at hname
    split at hname
    · cases hname
    · rename_i stem hstem
      rw [Text.before?_eq_some] at hstem
      simp [hstem]
  unfold joinPath
  split
  · exact hlast
  all_goals rw [List.getLast?_append, hlast, Option.some_or]

mutual

private theorem getLast?_of_mem_pythonFiles {p : Text} :
    ∀ {path : Text} {t : Tree}, p ∈ Tree.pythonFiles path t → p.getLast? = some 'y'
  | path, .file _, h => by simp [Tree.pythonFiles] at h
  | path, .directory children, h => by
    rw [Tree.pythonFiles, List.mem_flatMap] at h
    obtain ⟨entry, hentry, hp⟩ := h
    exact getLast?_of_mem_pythonFilesOf (List.mem_mergeSort.mp hentry) hp

private theorem getLast?_of_mem_pythonFilesOf {p : Text} {entry : Text × List Text} :
    ∀ {path : Text} {children : List (Text × Tree)},
      entry ∈ Tree.pythonFilesOf path children → p ∈ entry.2 → p.getLast? = some 'y'
  | path, [], h, _ => by simp [Tree.pythonFilesOf] at h
  | path, (name, .file _) :: rest, h, hp => by
    rw [Tree.pythonFilesOf, List.mem_cons] at h
    rcases h with rfl | h
    · simp only at hp
      split at hp
      · rename_i hname
        rw [List.mem_singleton.mp hp]
        exact getLast?_joinPath hname path
      · cases hp
    · exact getLast?_of_mem_pythonFilesOf h hp
  | path, (name, .directory children) :: rest, h, hp => by
    rw [Tree.pythonFilesOf, List.mem_cons] at h
    rcases h with rfl | h
    · exact getLast?_of_mem_pythonFiles hp
    · exact getLast?_of_mem_pythonFilesOf h hp

end

private theorem not_infix_of_isExcluded {exclude : List Text} {p : Text}
    (h : isExcluded exclude p = false) : ∀ fragment ∈ exclude, ¬ fragment <:+: p := by
  intro fragment hfragment hin
  have hnot := List.any_eq_false.mp h fragment hfragment
  exact hnot ((Docstring.includes_iff fragment p).mpr hin)

private theorem of_mem_collectFiles {r : RunOptions} {root : Tree} {cwd : Location}
    {paths : List Text}
    (hpaths : stdinPath ∉ paths) {p : Text} (h : p ∈ collectFiles r root cwd paths) :
    p ≠ stdinPath ∧ ∀ fragment ∈ r.exclude, ¬ fragment <:+: p := by
  obtain ⟨path, hpath, hp⟩ := List.mem_flatMap.mp h
  have hne : path ≠ stdinPath := fun heq => hpaths (heq ▸ hpath)
  unfold filesAt at hp
  rw [if_neg hne] at hp
  split at hp
  · split at hp
    · obtain ⟨hmem, hkept⟩ := List.mem_filter.mp hp
      refine ⟨?_, not_infix_of_isExcluded (by simpa using hkept)⟩
      rintro rfl
      have hlast := getLast?_of_mem_pythonFiles hmem
      exact absurd hlast (by decide)
    · cases hp
  · split at hp
    · cases hp
    · rename_i hkept
      rw [List.mem_singleton.mp hp]
      exact ⟨hne, not_infix_of_isExcluded (by simpa using hkept)⟩

end Collecting

/-- The session with the reports on the paths themselves. -/
def started (r : RunOptions) (paths : List Text) (w : Session) : Session :=
  { w with events := w.events ++ paths.flatMap (collectEvents r w.root w.cwd) }

/-- The tally and the session after some files were processed. -/
def stateAfter (o : Options) (r : RunOptions) (w : Session) (files : List Text) :
    Summary × Session :=
  (files.foldlM (runFile o r) {}).run w

section Runs

variable {o : Options} {r : RunOptions} {w : Session}

private theorem stateAfter_concat (o : Options) (r : RunOptions) (w : Session) (files : List Text)
    (p : Text) :
    stateAfter o r w (files ++ [p]) =
      (runFile o r (stateAfter o r w files).1 p).run (stateAfter o r w files).2 := by
  simp only [stateAfter, List.foldlM_append, StateT.run_bind]
  rfl

private theorem exists_events_flush (refusal : Option Text) (s : Summary) (w : Session) :
    ∃ events, StateT.run (do
        if s.fault.isNone then
          match refusal with
          | none => pure ()
          | some reason => modify fun w => { w with events := w.events ++ [.flushFailed reason] }
        return s : StateM Session Summary) w = (s, { w with events := events }) := by
  cases s.fault.isNone with
  | false => exact ⟨_, rfl⟩
  | true => cases refusal <;> exact ⟨_, rfl⟩

private theorem run_eq (o : Options) (r : RunOptions) (paths : List Text) (w : Session) :
    ∃ events, (run o r paths).run w =
      let final := stateAfter o r (started r paths w) (collectFiles r w.root w.cwd paths)
      (final.1, { final.2 with events := events }) := by
  unfold run
  rw [StateT.run_bind]
  exact exists_events_flush _ _ _

private theorem processed_stateAfter (o : Options) (r : RunOptions) (w : Session)
    (earlier : List Text)
    {p : Text} (hp : p ≠ stdinPath) :
    Processed o r p (stateAfter o r w earlier) (stateAfter o r w (earlier ++ [p])) := by
  rw [stateAfter_concat]
  exact processed_runFile o r hp _ _

private theorem Processed.continues {p : Text} {x x' : Summary × Session}
    (h : Processed o r p x x') : x.2.Continues x'.2 := by
  cases h with
  | stopped s w ended => exact .refl w
  | unread s w w' cause running read prints root report => exact prints.toContinues
  | faulted s w w' source fault running read format prints root => exact prints.toContinues
  | misreported s w w' source formatted done rest text reason running read format reports refused
      prints root report =>
    exact prints.toContinues
  | unwritten s w w' source formatted reason running read format differs inPlace refused prints root
      report =>
    exact prints.toContinues
  | kept s w w' source running read format prints root => exact prints.toContinues
  | listed s w w' source formatted running read format differs inPlace prints root =>
    exact prints.toContinues
  | replaced s w w' source formatted location running place read format differs inPlace accepted
      prints files kinds =>
    exact prints.toContinues

private theorem Processed.root_or_replaced {p : Text} {x x' : Summary × Session}
    (h : Processed o r p x x') :
    x'.2.root = x.2.root ∨
      r.inPlace = true ∧ x'.2.root.kindAt = x.2.root.kindAt ∧
        ∃ location contents, resolve x.2.root x.2.cwd p = .ok location ∧
          x'.2.root.fileAt = Function.update x.2.root.fileAt location contents := by
  cases h with
  | stopped s w ended => exact Or.inl rfl
  | unread s w w' cause running read prints root report => exact Or.inl root
  | faulted s w w' source fault running read format prints root => exact Or.inl root
  | misreported s w w' source formatted done rest text reason running read format reports refused
      prints root report =>
    exact Or.inl root
  | unwritten s w w' source formatted reason running read format differs inPlace refused prints root
      report =>
    exact Or.inl root
  | kept s w w' source running read format prints root => exact Or.inl root
  | listed s w w' source formatted running read format differs inPlace prints root =>
    exact Or.inl root
  | replaced s w w' source formatted location running place read format differs inPlace accepted
      prints files kinds =>
    exact Or.inr ⟨inPlace, kinds, location, _, place, files⟩

/-- Whether work on a file has to fail: the file cannot be read, or one of the attempts that the work
makes is refused, to print a report or to write the changed file. -/
def Fails (o : Options) (r : RunOptions) (p : Text) (w : Session) : Prop :=
  (∃ cause, readText w.root w.cwd p = .error cause) ∨
    ∃ source formatted, readText w.root w.cwd p = .ok source ∧
      (Source.format o source).result = .ok formatted ∧
      ((∃ n < (reportsOf r p source formatted).length,
          w.output.refusal (w.output.attempts + n) ≠ none) ∨
        r.inPlace = true ∧ formatted ≠ source ∧ w.writeRefusal w.writes ≠ none)

private theorem not_fails {p source formatted : Text} {stores : Nat} {w' : Session}
    (hread : readText w.root w.cwd p = .ok source)
    (hformat : (Source.format o source).result = .ok formatted)
    (hprints : w.Prints (reportsOf r p source formatted)
      (reportsOf r p source formatted).length stores w')
    (hwrite : r.inPlace = true → formatted ≠ source → w.writeRefusal w.writes = none) :
    ¬ Fails o r p w := by
  rintro (⟨cause, herror⟩ | ⟨source', formatted', hread', hformat', hrefused⟩)
  · rw [hread] at herror
    cases herror
  · obtain rfl : source = source' := Except.ok.inj (hread.symm.trans hread')
    obtain rfl : formatted = formatted' := Except.ok.inj (hformat.symm.trans hformat')
    rcases hrefused with ⟨n, hn, hrefusal⟩ | ⟨hinPlace, hdiffers, hrefusal⟩
    · exact hrefusal (hprints.accepted n hn)
    · exact hrefusal (hwrite hinPlace hdiffers)

private theorem Processed.errors_of_fails {p : Text} {x x' : Summary × Session}
    (h : Processed o r p x x') (hrunning : x.1.fault = none) :
    (Fails o r p x.2 → x'.1 = { x.1 with errors := x.1.errors + 1 } ∧ x'.2.root = x.2.root) ∧
      (¬ Fails o r p x.2 → x'.1.errors = x.1.errors) := by
  cases h with
  | stopped s w ended =>
    have hfault : s.fault = none := hrunning
    rw [hfault] at ended
    cases ended
  | unread s w w' cause running read prints root report =>
    exact ⟨fun _ => ⟨rfl, root⟩, fun hnot => absurd (Or.inl ⟨cause, read⟩) hnot⟩
  | faulted s w w' source fault running read format prints root =>
    refine ⟨?_, fun _ => rfl⟩
    rintro (⟨cause, herror⟩ | ⟨source', formatted, hread, hformat, -⟩)
    · cases herror.symm.trans read
    · obtain rfl : source = source' := Except.ok.inj (read.symm.trans hread)
      cases hformat.symm.trans format
  | misreported s w w' source formatted done rest text reason running read format reports refused
      prints root report =>
    refine ⟨fun _ => ⟨rfl, root⟩, fun hnot => absurd (Or.inr ?_) hnot⟩
    refine ⟨source, formatted, read, format, Or.inl ⟨done.length, ?_, ?_⟩⟩
    · rw [reports, List.length_append, List.length_cons]
      omega
    · simp [refused]
  | unwritten s w w' source formatted reason running read format differs inPlace refused prints root
      report =>
    refine ⟨fun _ => ⟨rfl, root⟩, fun hnot => absurd (Or.inr ?_) hnot⟩
    exact ⟨source, formatted, read, format, Or.inr ⟨inPlace, differs, by simp [refused]⟩⟩
  | kept s w w' source running read format prints root =>
    have hnot := not_fails read format prints fun _ hdiffers => absurd rfl hdiffers
    exact ⟨fun hfails => absurd hfails hnot, fun _ => rfl⟩
  | listed s w w' source formatted running read format differs inPlace prints root =>
    have hnot := not_fails read format prints fun hinPlace => by simp [inPlace] at hinPlace
    exact ⟨fun hfails => absurd hfails hnot, fun _ => rfl⟩
  | replaced s w w' source formatted location running place read format differs inPlace accepted
      prints files kinds =>
    have hread := readText_eq_ok.mpr ⟨location, place, read⟩
    have hnot := not_fails hread format prints fun _ _ => accepted
    exact ⟨fun hfails => absurd hfails hnot, fun _ => rfl⟩

structure KeptBut (r : RunOptions) (files : List Text) (w w' : Session) : Prop where
  continues : w.Continues w'
  kinds : w'.root.kindAt = w.root.kindAt
  idle : r.inPlace = false → w'.root = w.root
  others : ∀ location, (∀ p ∈ files, resolve w.root w.cwd p ≠ .ok location) →
    w'.root.fileAt location = w.root.fileAt location

private theorem KeptBut.resolve_eq {files : List Text} {w' : Session} (h : KeptBut r files w w')
    (p : Text) : resolve w'.root w'.cwd p = resolve w.root w.cwd p := by
  rw [h.continues.cwd, resolve_congr h.kinds]

theorem KeptBut.concat {files : List Text} {p : Text} {x x' : Summary × Session}
    (h : KeptBut r files w x.2) (hp : Processed o r p x x') :
    KeptBut r (files ++ [p]) w x'.2 := by
  obtain hroot | ⟨hinPlace, hkinds, location, contents, hplace, hfiles⟩ := hp.root_or_replaced
  · refine ⟨h.continues.trans hp.continues, ?_, ?_, ?_⟩
    · rw [hroot, h.kinds]
    · exact fun hidle => hroot.trans (h.idle hidle)
    · intro other hother
      rw [hroot]
      exact h.others other fun q hq => hother q (List.mem_append_left _ hq)
  · refine ⟨h.continues.trans hp.continues, hkinds.trans h.kinds, ?_, ?_⟩
    · intro hidle
      rw [hinPlace] at hidle
      cases hidle
    · intro other hother
      have hne : other ≠ location := by
        rintro rfl
        rw [h.resolve_eq] at hplace
        exact hother p (by simp) hplace
      rw [hfiles, Function.update_of_ne hne]
      exact h.others other fun q hq => hother q (List.mem_append_left _ hq)

private theorem keptBut_stateAfter (o : Options) (r : RunOptions) (w : Session) {files : List Text}
    (hfiles : ∀ p ∈ files, p ≠ stdinPath) :
    KeptBut r files w (stateAfter o r w files).2 := by
  induction files using List.reverseRecOn with
  | nil => exact ⟨.refl _, rfl, fun _ => rfl, fun _ _ => rfl⟩
  | append_singleton earlier p ih =>
    have hearlier := ih fun q hq => hfiles q (List.mem_append_left _ hq)
    exact hearlier.concat (processed_stateAfter o r w earlier (hfiles p (by simp)))

end Runs

section Tally

variable {o : Options} {r : RunOptions} {w : Session} {files : List Text}

/-- The fault that formatting the file that a path leads to ends in. -/
def faultAt (o : Options) (w : Session) (p : Text) : Option Fault :=
  match readText w.root w.cwd p with
  | .error _ => none
  | .ok source =>
    match (Source.format o source).result with
    | .error fault => some fault
    | .ok _ => none

/-- Whether formatting gives the file that a path leads to another text. -/
def wouldChange (o : Options) (w : Session) (p : Text) : Bool :=
  match readText w.root w.cwd p with
  | .error _ => false
  | .ok source =>
    match (Source.format o source).result with
    | .error _ => false
    | .ok formatted => formatted != source

/-- The tally of a run in which nothing but a fault goes wrong: the files that would change, in
their order, up to the first fault. -/
def tally (o : Options) (w : Session) (files : List Text) : Summary where
  changed := (files.takeWhile fun p => (faultAt o w p).isNone).filter (wouldChange o w)
  fault := files.findSome? (faultAt o w)

private theorem tally_concat_of_isSome (h : (tally o w files).fault.isSome = true) (p : Text) :
    tally o w (files ++ [p]) = tally o w files := by
  obtain ⟨fault, hfault⟩ := Option.isSome_iff_exists.mp h
  have hfind : files.findSome? (faultAt o w) = some fault := hfault
  obtain ⟨q, hq, hqfault⟩ := List.exists_of_findSome?_eq_some hfind
  have hshort : (files.takeWhile fun p => (faultAt o w p).isNone).length ≠ files.length := by
    intro hlength
    have hall := (List.takeWhile_prefix _).eq_of_length hlength
    have hnone := List.takeWhile_eq_self_iff.mp hall q hq
    simp [hqfault] at hnone
  simp [tally, List.takeWhile_append, hshort, hfind]

private theorem tally_concat (h : (tally o w files).fault = none) {p source : Text}
    (hread : readText w.root w.cwd p = .ok source) :
    tally o w (files ++ [p]) =
      match (Source.format o source).result with
      | .error fault => { tally o w files with fault := some fault }
      | .ok formatted =>
        if formatted = source then tally o w files
        else { tally o w files with changed := (tally o w files).changed ++ [p] } := by
  have hfind : files.findSome? (faultAt o w) = none := h
  have hall : ∀ q ∈ files, (faultAt o w q).isNone = true := fun q hq => by
    rw [List.findSome?_eq_none_iff.mp hfind q hq, Option.isNone_none]
  have hself := List.takeWhile_eq_self_iff.mpr hall
  cases hformat : (Source.format o source).result with
  | error fault =>
    have hfault : faultAt o w p = some fault := by simp [faultAt, hread, hformat]
    simp [tally, List.takeWhile_append_of_pos hall, hself, hfind, hfault]
  | ok formatted =>
    have hfault : faultAt o w p = none := by simp [faultAt, hread, hformat]
    have hchange : wouldChange o w p = (formatted != source) := by
      simp [wouldChange, hread, hformat]
    by_cases hsame : formatted = source <;>
      simp [tally, List.takeWhile_append_of_pos hall, hself, hfind, hfault, hchange, hsame]

private theorem Processed.tally_eq {p source : Text} {x x' : Summary × Session}
    (h : Processed o r p x x') (hx : x.1 = tally o w files) (haccepts : x.2.Accepts x'.2)
    (hnow : readText x.2.root x.2.cwd p = .ok source)
    (hstart : readText w.root w.cwd p = .ok source) :
    x'.1 = tally o w (files ++ [p]) := by
  cases h with
  | stopped s w' ended =>
    obtain rfl : s = tally o w files := hx
    rw [tally_concat_of_isSome ended]
  | unread s w' w'' cause running read prints root report => cases read.symm.trans hnow
  | faulted s w' w'' source' fault running read format prints root =>
    obtain rfl : s = tally o w files := hx
    obtain rfl : source' = source := Except.ok.inj (read.symm.trans hnow)
    rw [tally_concat running hstart, format]
  | misreported s w' w'' source' formatted done rest text reason running read format reports refused
      prints root report =>
    have hattempt := haccepts.prints _ (Nat.le_add_right _ done.length)
      (by rw [prints.attempts_eq]; exact Nat.lt_succ_self _)
    cases hattempt.symm.trans refused
  | unwritten s w' w'' source' formatted reason running read format differs inPlace refused prints
      root report =>
    have hattempt := haccepts.writes _ (Nat.le_refl _)
      (by rw [prints.writes_eq]; exact Nat.lt_succ_self _)
    cases hattempt.symm.trans refused
  | kept s w' w'' source' running read format prints root =>
    obtain rfl : s = tally o w files := hx
    obtain rfl : source' = source := Except.ok.inj (read.symm.trans hnow)
    simp only [tally_concat running hstart, format, if_true]
  | listed s w' w'' source' formatted running read format differs inPlace prints root =>
    obtain rfl : s = tally o w files := hx
    obtain rfl : source' = source := Except.ok.inj (read.symm.trans hnow)
    simp only [tally_concat running hstart, format, differs, if_false]
  | replaced s w' w'' source' formatted location running place read format differs inPlace accepted
      prints after kinds =>
    obtain rfl : s = tally o w files := hx
    obtain rfl : source' = source :=
      Except.ok.inj ((readText_eq_ok.mpr ⟨location, place, read⟩).symm.trans hnow)
    simp only [tally_concat running hstart, format, differs, if_false]

private theorem tally_stateAfter (o : Options) (r : RunOptions)
    (haccepts : w.Accepts (stateAfter o r w files).2) (hfiles : ∀ p ∈ files, p ≠ stdinPath)
    (hread : ∀ p ∈ files, ∃ source, readText w.root w.cwd p = .ok source)
    (hdistinct : files.Pairwise fun p q => resolve w.root w.cwd p ≠ resolve w.root w.cwd q) :
    (stateAfter o r w files).1 = tally o w files := by
  induction files using List.reverseRecOn with
  | nil => rfl
  | append_singleton earlier p ih =>
    have hkept := keptBut_stateAfter o r w fun q hq => hfiles q (List.mem_append_left [p] hq)
    have hstep := processed_stateAfter o r w earlier (hfiles p (by simp))
    have hbefore := ih (haccepts.of_continues hstep.continues)
      (fun q hq => hfiles q (List.mem_append_left _ hq))
      (fun q hq => hread q (List.mem_append_left _ hq)) (List.pairwise_append.mp hdistinct).1
    -- the files before `p` stand elsewhere, so `p` is read as it was at the start
    have hsource : ∃ source, readText w.root w.cwd p = .ok source ∧
        readText (stateAfter o r w earlier).2.root (stateAfter o r w earlier).2.cwd p =
          .ok source := by
      obtain ⟨source, hsource⟩ := hread p (by simp)
      refine ⟨source, hsource, ?_⟩
      obtain ⟨location, hplace, hfile⟩ := readText_eq_ok.mp hsource
      refine readText_eq_ok.mpr ⟨location, (hkept.resolve_eq p).trans hplace, ?_⟩
      rw [hkept.others location, hfile]
      intro q hq hsame
      exact (List.pairwise_append.mp hdistinct).2.2 q hq p (by simp) (hsame.trans hplace.symm)
    obtain ⟨source, hstart, hnow⟩ := hsource
    exact hstep.tally_eq hbefore (haccepts.after hkept.continues) hnow hstart

end Tally

/-- What a run over the files of some paths does. -/
structure Account (o : Options) (r : RunOptions) (paths : List Text) (w : Session) : Prop where
  included : ∀ p ∈ collectFiles r w.root w.cwd paths, ∀ fragment ∈ r.exclude, ¬ fragment <:+: p
  /-- The files are processed one after the other, whatever became of those before. -/
  steps : ∀ earlier p later, collectFiles r w.root w.cwd paths = earlier ++ p :: later →
    Processed o r p (stateAfter o r (started r paths w) earlier)
      (stateAfter o r (started r paths w) (earlier ++ [p]))
  /-- Work on a file that cannot be read, reported or written is counted as one error, lists and
  changes nothing, and does not end the run; no other work is counted as an error. -/
  errors : ∀ earlier p later, collectFiles r w.root w.cwd paths = earlier ++ p :: later →
    (stateAfter o r (started r paths w) earlier).1.fault = none →
      (Fails o r p (stateAfter o r (started r paths w) earlier).2 →
        (stateAfter o r (started r paths w) (earlier ++ [p])).1 =
            { (stateAfter o r (started r paths w) earlier).1 with
              errors := (stateAfter o r (started r paths w) earlier).1.errors + 1 } ∧
          (stateAfter o r (started r paths w) (earlier ++ [p])).2.root =
            (stateAfter o r (started r paths w) earlier).2.root) ∧
      (¬ Fails o r p (stateAfter o r (started r paths w) earlier).2 →
        (stateAfter o r (started r paths w) (earlier ++ [p])).1.errors =
          (stateAfter o r (started r paths w) earlier).1.errors)
  /-- The tally and the session are those after the last file, the events aside. -/
  result : ∃ events, (run o r paths).run w =
    ((stateAfter o r (started r paths w) (collectFiles r w.root w.cwd paths)).1,
      { (stateAfter o r (started r paths w) (collectFiles r w.root w.cwd paths)).2 with
        events := events })
  idle : r.inPlace = false → ((run o r paths).run w).2.root = w.root
  /-- No file appears or goes, and no directory does. -/
  kinds : ((run o r paths).run w).2.root.kindAt = w.root.kindAt
  others : ∀ location,
    ((run o r paths).run w).2.root.fileAt location ≠ w.root.fileAt location →
      ∃ p ∈ collectFiles r w.root w.cwd paths, resolve w.root w.cwd p = .ok location
  /-- Where every file can be read, none is there twice and none of the attempts is refused, the tally
  is the same whatever is done with the files: no errors, and the files that formatting changes. -/
  tallied : (∀ p ∈ collectFiles r w.root w.cwd paths, ∃ source, readText w.root w.cwd p = .ok source) →
    ((collectFiles r w.root w.cwd paths).Pairwise fun p q =>
      resolve w.root w.cwd p ≠ resolve w.root w.cwd q) →
    ∀ r' : RunOptions, r'.recursive = r.recursive → r'.exclude = r.exclude →
      w.Accepts ((run o r' paths).run w).2 →
      ((run o r' paths).run w).1 = tally o w (collectFiles r w.root w.cwd paths) ∧
      ((∀ p ∈ collectFiles r w.root w.cwd paths, faultAt o w p = none) →
        ((run o r' paths).run w).1.changed =
          (collectFiles r w.root w.cwd paths).filter (wouldChange o w) ∧
        ((run o r' paths).run w).1.exitCode r' =
          if r'.check && (collectFiles r w.root w.cwd paths).any (wouldChange o w) then 3 else 0)

section Accounts

variable {o : Options} {r r' : RunOptions} {paths files : List Text} {w : Session}

private theorem collectFiles_congr (hrecursive : r'.recursive = r.recursive)
    (hexclude : r'.exclude = r.exclude) (root : Tree) (cwd : Location) (paths : List Text) :
    collectFiles r' root cwd paths = collectFiles r root cwd paths := by
  unfold collectFiles
  congr 1
  funext path
  simp only [filesAt, hrecursive, hexclude]

private theorem tally_run (o : Options) (r : RunOptions) (hpaths : stdinPath ∉ paths)
    (haccepts : w.Accepts ((run o r paths).run w).2)
    (hread : ∀ p ∈ collectFiles r w.root w.cwd paths,
      ∃ source, readText w.root w.cwd p = .ok source)
    (hdistinct : (collectFiles r w.root w.cwd paths).Pairwise fun p q =>
      resolve w.root w.cwd p ≠ resolve w.root w.cwd q) :
    ((run o r paths).run w).1 = tally o w (collectFiles r w.root w.cwd paths) := by
  obtain ⟨events, hrun⟩ := run_eq o r paths w
  rw [hrun] at haccepts ⊢
  exact tally_stateAfter (w := started r paths w) o r ⟨haccepts.prints, haccepts.writes⟩
    (fun p hp => (of_mem_collectFiles hpaths hp).1) hread hdistinct

private theorem tally_eq_of_faultless (h : ∀ p ∈ files, faultAt o w p = none) :
    tally o w files = { changed := files.filter (wouldChange o w) } := by
  have hself : files.takeWhile (fun p => (faultAt o w p).isNone) = files :=
    List.takeWhile_eq_self_iff.mpr fun p hp => by rw [h p hp, Option.isNone_none]
  rw [tally, hself, List.findSome?_eq_none_iff.mpr h]

private theorem exitCode_filter (changes : Text → Bool) (files : List Text) (r : RunOptions) :
    Summary.exitCode { changed := files.filter changes } r =
      if r.check && files.any changes then 3 else 0 := by
  have hany : (!(files.filter changes).isEmpty) = files.any changes := by
    rw [Bool.eq_iff_iff]
    simp
  simp [Summary.exitCode, hany]

/-- A run over files changes none unless it works in place, and then only those that it collected.  Each
is left alone or replaced by its formatted text, and counts as an error exactly if it cannot be read or
one of its own attempts is refused. -/
theorem run_accounts_for_files (o : Options) (r : RunOptions) (paths : List Text) (w : Session)
    (hpaths : stdinPath ∉ paths) : Account o r paths w := by
  have hfiles : ∀ p ∈ collectFiles r w.root w.cwd paths, p ≠ stdinPath :=
    fun p hp => (of_mem_collectFiles hpaths hp).1
  obtain ⟨events, hrun⟩ := run_eq o r paths w
  have hkept : KeptBut r (collectFiles r w.root w.cwd paths) w
      (stateAfter o r (started r paths w) (collectFiles r w.root w.cwd paths)).2 := by
    obtain ⟨hcontinues, hkinds, hidle, hothers⟩ := keptBut_stateAfter o r (started r paths w) hfiles
    exact ⟨⟨hcontinues.cwd, hcontinues.refusal, hcontinues.flushRefusal, hcontinues.writeRefusal,
      hcontinues.attempts, hcontinues.writes⟩, hkinds, hidle, hothers⟩
  refine ⟨?_, ?_, ?_, ?_, ?_, ?_, ?_, ?_⟩
  · exact fun p hp => (of_mem_collectFiles hpaths hp).2
  · intro earlier p later hsplit
    exact processed_stateAfter o r _ earlier (hfiles p (by simp [hsplit]))
  · intro earlier p later hsplit hrunning
    have hstep := processed_stateAfter o r (started r paths w) earlier (hfiles p (by simp [hsplit]))
    exact hstep.errors_of_fails hrunning
  · exact ⟨events, hrun⟩
  · rw [hrun]
    exact hkept.idle
  · rw [hrun]
    exact hkept.kinds
  · intro location hchanged
    rw [hrun] at hchanged
    by_contra hnone
    exact hchanged (hkept.others location fun p hp hplace => hnone ⟨p, hp, hplace⟩)
  · intro hread hdistinct r' hrecursive hexclude haccepts
    have hsame := collectFiles_congr hrecursive hexclude w.root w.cwd paths
    rw [← hsame] at hread hdistinct ⊢
    have htally := tally_run o r' hpaths haccepts hread hdistinct
    refine ⟨htally, fun hfault => ?_⟩
    rw [htally, tally_eq_of_faultless hfault, exitCode_filter]
    exact ⟨rfl, rfl⟩

private theorem filesAt_directory (path : Text) {children : List (Text × Tree)}
    (hpath : path ≠ stdinPath)
    (hrecursive : r.recursive = true)
    (hlookup : lookup w.root w.cwd path = some (.directory children))
    (hsorted : (Tree.pythonFilesOf path children).Pairwise fun a b => nameLe a.1 b.1 = true) :
    filesAt r w.root w.cwd path =
      ((Tree.pythonFilesOf path children).flatMap Prod.snd).filter
        fun p => !isExcluded r.exclude p := by
  rw [filesAt, if_neg hpath, hlookup]
  simp only [hrecursive, if_true]
  rw [Tree.pythonFiles, List.mergeSort_of_pairwise hsorted]

/-- A directory with two files to change, one that is formatted and one that is excluded.  Where
nothing is refused, listing, showing and replacing count the same files.  Where the first report is
refused, the first file counts as an error and stays, and the second is replaced. -/
theorem run_accounts_for_directory :
    let w : Session :=
      { root := .directory [("d".toList, .directory
          [("a.py".toList, .file (.text "'''do it'''\n".toList)),
            ("b.py".toList, .file (.text "'''do that'''\n".toList)),
            ("c.py".toList, .file (.text "\"\"\"Do more.\"\"\"\n".toList)),
            ("skip.py".toList, .file (.text "'''no'''\n".toList))])]
        cwd := [] }
    let refusing : Session :=
      { w with output := { refusal := fun n => if n = 0 then some "full".toList else none } }
    let r : RunOptions :=
      { inPlace := true, check := true, recursive := true, exclude := ["skip".toList] }
    let paths : List Text := ["d".toList]
    (stdinPath ∉ paths ∧ Account {} r paths w ∧
      collectFiles r w.root w.cwd paths =
        ["d/a.py".toList, "d/b.py".toList, "d/c.py".toList] ∧
      ∀ inPlace check diff : Bool,
        let r' : RunOptions := { r with inPlace := inPlace, check := check, diff := diff }
        ((run {} r' paths).run w).1.changed = ["d/a.py".toList, "d/b.py".toList] ∧
          ((run {} r' paths).run w).1.exitCode r' = if check then 3 else 0) ∧
    Account {} r paths refusing ∧ Fails {} r "d/a.py".toList (started r paths refusing) ∧
      (stateAfter {} r (started r paths refusing) ["d/a.py".toList]).1 = { errors := 1 } ∧
      (stateAfter {} r (started r paths refusing) ["d/a.py".toList]).2.root = w.root ∧
      ((run {} r paths).run refusing).1 = { changed := ["d/b.py".toList], errors := 1 } := by
  intro w refusing r paths
  have hpaths : stdinPath ∉ paths := by decide
  have hfiles : collectFiles r w.root w.cwd paths =
      ["d/a.py".toList, "d/b.py".toList, "d/c.py".toList] := by
    have hdirectory := filesAt_directory (r := r) (w := w) "d".toList (by decide) rfl rfl
      (by decide +kernel)
    rw [collectFiles, List.flatMap_singleton, hdirectory]
    decide +kernel
  have haccount := run_accounts_for_files {} r paths w hpaths
  have hbroken := run_accounts_for_files {} r paths refusing hpaths
  refine ⟨⟨hpaths, haccount, hfiles, fun inPlace check diff => ?_⟩, hbroken, ?_⟩
  · have hread : ∀ p ∈ collectFiles r w.root w.cwd paths,
        ∃ source, readText w.root w.cwd p = .ok source := by
      rw [hfiles]
      simp only [List.forall_mem_cons, List.not_mem_nil, false_implies, implies_true, and_true]
      exact ⟨⟨_, rfl⟩, ⟨_, rfl⟩, ⟨_, rfl⟩⟩
    have hplaces : ∀ p ∈ collectFiles r w.root w.cwd paths,
        resolve w.root w.cwd p = .ok (components p) := by
      rw [hfiles]
      simp only [List.forall_mem_cons, List.not_mem_nil, false_implies, implies_true, and_true]
      exact ⟨rfl, rfl, rfl⟩
    have hdistinct : (collectFiles r w.root w.cwd paths).Pairwise fun p q =>
        resolve w.root w.cwd p ≠ resolve w.root w.cwd q := by
      have hnames : (collectFiles r w.root w.cwd paths).Pairwise fun p q =>
          components p ≠ components q := by
        rw [hfiles]
        decide +kernel
      refine hnames.imp_of_mem fun hp hq hne hsame => hne ?_
      rw [hplaces _ hp, hplaces _ hq] at hsame
      exact Except.ok.inj hsame
    obtain ⟨-, hcounts⟩ := haccount.tallied hread hdistinct
      { r with inPlace := inPlace, check := check, diff := diff } rfl rfl
      ⟨fun _ _ _ => rfl, fun _ _ _ => rfl⟩
    rw [hfiles] at hcounts
    have hfault : ∀ p ∈ ["d/a.py".toList, "d/b.py".toList, "d/c.py".toList],
        faultAt {} w p = none := by
      decide +kernel
    have hchange : ["d/a.py".toList, "d/b.py".toList, "d/c.py".toList].filter (wouldChange {} w) =
        ["d/a.py".toList, "d/b.py".toList] := by
      decide +kernel
    have hany : ["d/a.py".toList, "d/b.py".toList, "d/c.py".toList].any (wouldChange {} w) = true := by
      decide +kernel
    obtain ⟨hchanged, hcode⟩ := hcounts hfault
    refine ⟨hchanged.trans hchange, hcode.trans ?_⟩
    rw [hany, Bool.and_true]
  · have hfails : Fails {} r "d/a.py".toList (started r paths refusing) := by
      refine Or.inr ⟨"'''do it'''\n".toList, "\"\"\"Do it.\"\"\"\n".toList, rfl, ?_,
        Or.inl ⟨0, ?_, ?_⟩⟩
      · decide +kernel
      · decide +kernel
      · decide
    obtain ⟨hcounted, hroot⟩ := (hbroken.errors [] _ _ hfiles rfl).1 hfails
    obtain ⟨events, hrun⟩ := hbroken.result
    have hlater : (stateAfter {} r (started r paths refusing)
        ["d/a.py".toList, "d/b.py".toList, "d/c.py".toList]).1 =
          { changed := ["d/b.py".toList], errors := 1 } := by
      decide +kernel
    refine ⟨hfails, hcounted, hroot, ?_⟩
    rw [hrun, hfiles]
    exact hlater

end Accounts

end DocstringFormat.Files
