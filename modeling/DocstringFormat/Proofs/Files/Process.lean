import DocstringFormat.Files.Run
import DocstringFormat.Proofs.Files.Tree

/-!
What the processing of one file does.

Reports go to the output first and the file is written last.  Which attempts that takes is known from
the source and its formatted text (`reportsOf`), so what becomes of the file depends on the refusals
of just these attempts.  `Processed` lists the cases, each with the attempts that it made;
`processed_runFile` says that one of them holds.
-/

set_option autoImplicit false

namespace DocstringFormat.Files

/-- The second session goes on from the first: it works in the same directory, is refused the same
attempts and has not taken any attempt back. -/
structure Session.Continues (w w' : Session) : Prop where
  cwd : w'.cwd = w.cwd
  refusal : w'.output.refusal = w.output.refusal
  flushRefusal : w'.output.flushRefusal = w.output.flushRefusal
  writeRefusal : w'.writeRefusal = w.writeRefusal
  attempts : w.output.attempts ≤ w'.output.attempts
  writes : w.writes ≤ w'.writes

/-- From `w` to `w'` just these texts were printed, in this order and each at the first attempt, and
attempts were counted: `tries` to print and `stores` to write a file. -/
structure Session.Prints (texts : List Text) (tries stores : Nat) (w w' : Session) : Prop extends
    Session.Continues w w' where
  text : w'.output.text = w.output.text ++ texts.flatten
  accepted : ∀ n < texts.length, w.output.refusal (w.output.attempts + n) = none
  attempts_eq : w'.output.attempts = w.output.attempts + tries
  writes_eq : w'.writes = w.writes + stores

/-- No attempt that was made from `w` to `w'` was refused. -/
structure Session.Accepts (w w' : Session) : Prop where
  prints : ∀ n, w.output.attempts ≤ n → n < w'.output.attempts → w.output.refusal n = none
  writes : ∀ n, w.writes ≤ n → n < w'.writes → w.writeRefusal n = none

namespace Session

variable {w w' w'' : Session} {texts more : List Text} {tries stores n m : Nat}

theorem Continues.refl (w : Session) : w.Continues w :=
  ⟨rfl, rfl, rfl, rfl, Nat.le_refl _, Nat.le_refl _⟩

theorem Continues.trans (h : w.Continues w') (h' : w'.Continues w'') : w.Continues w'' :=
  ⟨h'.cwd.trans h.cwd, h'.refusal.trans h.refusal, h'.flushRefusal.trans h.flushRefusal,
    h'.writeRefusal.trans h.writeRefusal, Nat.le_trans h.attempts h'.attempts,
    Nat.le_trans h.writes h'.writes⟩

private theorem prints_nil (w : Session) (events : List Event) :
    w.Prints [] 0 0 { w with events := events } :=
  ⟨⟨rfl, rfl, rfl, rfl, Nat.le_refl _, Nat.le_refl _⟩, by simp, by simp, rfl, rfl⟩

private theorem Prints.trans (h : w.Prints texts texts.length stores w')
    (h' : w'.Prints more n m w'') :
    w.Prints (texts ++ more) (texts.length + n) (stores + m) w'' := by
  refine ⟨h.toContinues.trans h'.toContinues, ?_, ?_, ?_, ?_⟩
  · rw [h'.text, h.text, List.flatten_append, List.append_assoc]
  · intro k hk
    rcases Nat.lt_or_ge k texts.length with hfirst | hlater
    · exact h.accepted k hfirst
    · have hmore := h'.accepted (k - texts.length) (by rw [List.length_append] at hk; omega)
      rw [h.refusal, h.attempts_eq] at hmore
      rw [← hmore]
      congr 1
      omega
  · rw [h'.attempts_eq, h.attempts_eq, Nat.add_assoc]
  · rw [h'.writes_eq, h.writes_eq, Nat.add_assoc]

private theorem Prints.events (h : w.Prints texts tries stores w') (events : List Event) :
    w.Prints texts tries stores { w' with events := events } :=
  ⟨⟨h.cwd, h.refusal, h.flushRefusal, h.writeRefusal, h.attempts, h.writes⟩, h.text, h.accepted,
    h.attempts_eq, h.writes_eq⟩

theorem Accepts.of_continues (h : w.Accepts w'') (hlater : w'.Continues w'') : w.Accepts w' where
  prints n hn hlt := h.prints n hn (Nat.lt_of_lt_of_le hlt hlater.attempts)
  writes n hn hlt := h.writes n hn (Nat.lt_of_lt_of_le hlt hlater.writes)

theorem Accepts.after (h : w.Accepts w'') (hearlier : w.Continues w') : w'.Accepts w'' := by
  refine ⟨fun n hn hlt => ?_, fun n hn hlt => ?_⟩
  · rw [hearlier.refusal]
    exact h.prints n (Nat.le_trans hearlier.attempts hn) hlt
  · rw [hearlier.writeRefusal]
    exact h.writes n (Nat.le_trans hearlier.writes hn) hlt

end Session

def outcome {α : Type} (x : Work α) (w : Session) : Except Failure α × Session :=
  (ExceptT.run x).run w

section Outcomes

variable {α β : Type} {w : Session}

private theorem outcome_bind (x : Work α) (f : α → Work β) :
    outcome (x >>= f) w =
      match outcome x w with
      | (.ok a, w') => outcome (f a) w'
      | (.error e, w') => (.error e, w') := by
  simp only [outcome, ExceptT.run_bind, StateT.run_bind]
  cases h : StateT.run (ExceptT.run x) w with
  | mk result w' => cases result <;> rfl

private theorem mapError_ok {ε ε' : Type} (f : ε → ε') (a : α) :
    (Except.ok a : Except ε α).mapError f = .ok a := rfl

private theorem outcome_trace (x : Traced α) :
    outcome (Session.trace x) w =
      (x.result.mapError Failure.fault, { w with events := w.events ++ x.events }) := by
  unfold Session.trace
  cases x.result <;> rfl

private theorem outcome_get_bind (f : Session → Work β) :
    outcome (get >>= f) w = outcome (f w) w := rfl

private theorem outcome_read {path : Text} (hpath : path ≠ stdinPath) :
    outcome (Session.read path) w =
      ((readText w.root w.cwd path).mapError fun cause => .error (.io path cause.message), w) := by
  unfold Session.read
  rw [outcome_get_bind]
  simp only [if_neg hpath]
  cases readText w.root w.cwd path <;> rfl

private theorem print_cases (w : Session) (path : Text) {s : Text} (hs : s.isEmpty = false) :
    (∃ w', outcome (Session.print path s) w = (.ok (), w') ∧ w.Prints [s] 1 0 w' ∧
        w'.root = w.root) ∨
      ∃ w' reason, outcome (Session.print path s) w = (.error (.error (.io path reason)), w') ∧
        w.Prints [] 1 0 w' ∧ w'.root = w.root ∧
        w.output.refusal w.output.attempts = some reason := by
  unfold Session.print
  rw [hs, if_neg (by decide), outcome_get_bind]
  cases h : w.output.refusal w.output.attempts with
  | none =>
    refine Or.inl ⟨_, rfl, ⟨⟨rfl, rfl, rfl, rfl, Nat.le_succ _, Nat.le_refl _⟩, ?_, ?_, rfl, rfl⟩, rfl⟩
    · simp
    · intro n hn
      obtain rfl : n = 0 := by simpa using hn
      exact h
  | some reason =>
    exact Or.inr ⟨_, reason, rfl,
      ⟨⟨rfl, rfl, rfl, rfl, Nat.le_succ _, Nat.le_refl _⟩, by simp, by simp, rfl, rfl⟩, rfl, rfl⟩

private theorem write_cases {path s : Text} {after : Tree}
    (hwrite : writeText w.root w.cwd path s = .ok after) :
    (∃ w', outcome (Session.write path s) w = (.ok (), w') ∧ w.Prints [] 0 1 w' ∧
        w'.root = after ∧ w.writeRefusal w.writes = none) ∨
      ∃ w' reason, outcome (Session.write path s) w = (.error (.error (.io path reason)), w') ∧
        w.Prints [] 0 1 w' ∧ w'.root = w.root ∧ w.writeRefusal w.writes = some reason := by
  unfold Session.write
  rw [outcome_get_bind, outcome_bind]
  cases h : w.writeRefusal w.writes with
  | some reason =>
    exact Or.inr ⟨_, reason, rfl,
      ⟨⟨rfl, rfl, rfl, rfl, Nat.le_refl _, Nat.le_succ _⟩, by simp, by simp, rfl, rfl⟩, rfl, rfl⟩
  | none =>
    rw [hwrite]
    exact Or.inl ⟨_, rfl,
      ⟨⟨rfl, rfl, rfl, rfl, Nat.le_refl _, Nat.le_succ _⟩, by simp, by simp, rfl, rfl⟩, rfl, rfl⟩

end Outcomes

/-- Of some texts, each with whether it is wanted, those that take an attempt to print. -/
def printouts (entries : List (Bool × Text)) : List Text :=
  (entries.filter fun e => e.1 && !e.2.isEmpty).map Prod.snd

/-- The texts that are printed for a formatted source, in their order: the path if changes are listed,
the diff if changes are shown, and the source itself if nothing else is asked for. -/
def reportsOf (r : RunOptions) (path source formatted : Text) : List Text :=
  printouts
    [(r.check && formatted != source, path ++ ['\n']),
      ((!r.check || r.inPlace) && r.diff && formatted != source,
        Diff.unified source formatted path),
      (!r.check && !r.diff && !r.inPlace, formatted)]

section Publishing

variable {r : RunOptions} {path source formatted : Text} {w w' : Session}
  {target : Option Tree} {changed : Bool} {texts : List Text}

private inductive Published (path : Text) (texts : List Text) (target : Option Tree)
    (changed : Bool) (w : Session) : Except Failure Bool × Session → Prop
  | misreported (done rest : List Text) (text reason : Text) (w' : Session)
      (split : texts = done ++ text :: rest)
      (refused : w.output.refusal (w.output.attempts + done.length) = some reason)
      (prints : w.Prints done (done.length + 1) 0 w') (root : w'.root = w.root) :
      Published path texts target changed w (.error (.error (.io path reason)), w')
  | unwritten (after : Tree) (reason : Text) (w' : Session) (store : target = some after)
      (refused : w.writeRefusal w.writes = some reason)
      (prints : w.Prints texts texts.length 1 w') (root : w'.root = w.root) :
      Published path texts target changed w (.error (.error (.io path reason)), w')
  | reported (w' : Session) (idle : target = none) (prints : w.Prints texts texts.length 0 w')
      (root : w'.root = w.root) : Published path texts target changed w (.ok changed, w')
  | written (after : Tree) (w' : Session) (store : target = some after)
      (accepted : w.writeRefusal w.writes = none) (prints : w.Prints texts texts.length 1 w')
      (root : w'.root = after) : Published path texts target changed w (.ok changed, w')

private theorem Published.after_prints {x : Except Failure Bool × Session} {first : List Text}
    (hfirst : w.Prints first first.length 0 w') (hroot : w'.root = w.root)
    (h : Published path texts target changed w' x) :
    Published path (first ++ texts) target changed w x := by
  have hlength : first.length + texts.length = (first ++ texts).length :=
    (List.length_append).symm
  have hwrites : w'.writeRefusal w'.writes = w.writeRefusal w.writes := by
    rw [hfirst.writeRefusal, hfirst.writes_eq, Nat.add_zero]
  cases h with
  | misreported done rest text reason w'' split refused prints root =>
    refine .misreported (first ++ done) rest text reason w'' ?_ ?_ ?_ (root.trans hroot)
    · rw [split, List.append_assoc]
    · rwa [hfirst.refusal, hfirst.attempts_eq, Nat.add_assoc, ← List.length_append] at refused
    · rw [List.length_append, Nat.add_assoc]
      exact hfirst.trans prints
  | unwritten after reason w'' store refused prints root =>
    refine .unwritten after reason w'' store (hwrites ▸ refused) ?_ (root.trans hroot)
    rw [← hlength]
    exact hfirst.trans prints
  | reported w'' idle prints root =>
    refine .reported w'' idle ?_ (root.trans hroot)
    rw [← hlength]
    exact hfirst.trans prints
  | written after w'' store accepted prints root =>
    refine .written after w'' store (hwrites ▸ accepted) ?_ root
    rw [← hlength]
    exact hfirst.trans prints

private theorem published_after_print {rest : Unit → Work Bool} {entries : List (Bool × Text)}
    (b : Bool) (s : Text)
    (h : ∀ w', w'.root = w.root → w'.cwd = w.cwd →
      Published path (printouts entries) target changed w' (outcome (rest ()) w')) :
    Published path (printouts ((b, s) :: entries)) target changed w
      (outcome (if b = true then Session.print path s >>= rest else rest ()) w) := by
  cases b with
  | false => exact h w rfl rfl
  | true =>
    rw [if_pos rfl]
    cases hs : s.isEmpty with
    | true =>
      have hskip : printouts ((true, s) :: entries) = printouts entries := by
        simp [printouts, hs]
      have hprint : outcome (Session.print path s) w = (.ok (), w) := by
        unfold Session.print
        rw [hs]
        rfl
      rw [hskip, outcome_bind, hprint]
      exact h w rfl rfl
    | false =>
      have hcons : printouts ((true, s) :: entries) = [s] ++ printouts entries := by
        simp [printouts, hs]
      rw [hcons, outcome_bind]
      obtain ⟨w', hok, hprints, hroot⟩ | ⟨w', reason, herror, hprints, hroot, hrefused⟩ :=
        print_cases w path hs
      · rw [hok]
        exact (h w' hroot hprints.cwd).after_prints hprints hroot
      · rw [herror]
        exact .misreported [] _ s reason w' rfl hrefused hprints hroot

private theorem published_end (e : Event) :
    Published path [] none changed w (outcome (do
      Session.report e
      pure changed) w) :=
  .reported _ rfl (Session.prints_nil w _) rfl

private theorem published_write {after : Tree} (first second : Event)
    (hwrite : writeText w.root w.cwd path formatted = .ok after) :
    Published path [] (some after) changed w (outcome (do
      Session.write path formatted
      Session.report first
      Session.report second
      pure changed) w) := by
  rw [outcome_bind]
  obtain ⟨w', hok, hprints, hroot, haccepted⟩ | ⟨w', reason, herror, hprints, hroot, hrefused⟩ :=
    write_cases hwrite
  · rw [hok]
    exact .written after _ rfl haccepted (hprints.events _) hroot
  · rw [herror]
    exact .unwritten after reason w' rfl hrefused hprints hroot

private theorem published (r : RunOptions) (hpath : path ≠ stdinPath) (source : Text) {after : Tree}
    (hwrite : writeText w.root w.cwd path formatted = .ok after) :
    Published path (reportsOf r path source formatted)
      (if r.inPlace = true ∧ formatted ≠ source then some after else none) (formatted != source) w
      (outcome (publish r path source formatted) w) := by
  have hfile : (path != stdinPath) = true := by simpa using hpath
  generalize htarget : (if r.inPlace = true ∧ formatted ≠ source then some after else none) = target
  unfold publish reportsOf
  simp only [hfile, Bool.and_true]
  refine published_after_print _ _ fun w₁ hroot₁ hcwd₁ => ?_
  split
  · rename_i hlisted
    obtain ⟨hcheck, hidle⟩ : r.check = true ∧ r.inPlace = false := by simpa using hlisted
    rw [if_neg (by simp [hidle])] at htarget
    subst htarget
    simp only [hcheck, hidle, Bool.not_true, Bool.or_self, Bool.false_and]
    exact .reported _ rfl (Session.prints_nil w₁ _) rfl
  · rename_i hlisted
    have hmore : (!r.check || r.inPlace) = true := by
      cases hcheck : r.check <;> cases hinPlace : r.inPlace <;> simp_all
    rw [hmore, Bool.true_and]
    refine published_after_print _ _ fun w₂ hroot₂ hcwd₂ => ?_
    split
    · rename_i hinPlace
      have hnone : printouts [(!r.check && !r.diff && !r.inPlace, formatted)] = [] := by
        simp [printouts, hinPlace]
      rw [hnone]
      split
      · rename_i hchanged
        have hdiffers : formatted ≠ source := by simpa using hchanged
        rw [if_pos ⟨hinPlace, hdiffers⟩] at htarget
        subst htarget
        refine published_write _ _ ?_
        rw [hroot₂, hroot₁, hcwd₂, hcwd₁, hwrite]
      · rename_i hsame
        rw [if_neg (by simpa [hinPlace] using hsame)] at htarget
        subst htarget
        exact published_end _
    · rename_i hidle
      have hcheck : r.check = false := by
        cases hcheck : r.check <;> simp_all
      rw [if_neg (by simp [hidle])] at htarget
      subst htarget
      simp only [hcheck, hidle, Bool.not_false, Bool.true_and, Bool.and_true]
      exact published_after_print _ _ fun w₃ _ _ => published_end _

end Publishing

/-- What processing one file can do to the tally and the session of a run.  The attempts that it makes
are those of `reportsOf`, and one to write the file if the file is to change; it fails if one of these
is refused, and then right there. -/
inductive Processed (o : Options) (r : RunOptions) (path : Text) :
    Summary × Session → Summary × Session → Prop
  | stopped (s : Summary) (w : Session) (ended : s.fault.isSome = true) :
      Processed o r path (s, w) (s, w)
  | unread (s : Summary) (w w' : Session) (cause : PathError) (running : s.fault = none)
      (read : readText w.root w.cwd path = .error cause) (prints : w.Prints [] 0 0 w')
      (root : w'.root = w.root)
      (report : w'.events = w.events ++ [.failed (.io path cause.message)]) :
      Processed o r path (s, w) ({ s with errors := s.errors + 1 }, w')
  | faulted (s : Summary) (w w' : Session) (source : Text) (fault : Fault)
      (running : s.fault = none) (read : readText w.root w.cwd path = .ok source)
      (format : (Source.format o source).result = .error fault) (prints : w.Prints [] 0 0 w')
      (root : w'.root = w.root) :
      Processed o r path (s, w) ({ s with fault := some fault }, w')
  /-- A report is refused after those before it were printed: one more error. -/
  | misreported (s : Summary) (w w' : Session) (source formatted : Text) (done rest : List Text)
      (text reason : Text) (running : s.fault = none)
      (read : readText w.root w.cwd path = .ok source)
      (format : (Source.format o source).result = .ok formatted)
      (reports : reportsOf r path source formatted = done ++ text :: rest)
      (refused : w.output.refusal (w.output.attempts + done.length) = some reason)
      (prints : w.Prints done (done.length + 1) 0 w') (root : w'.root = w.root)
      (report : w'.events.getLast? = some (.failed (.io path reason))) :
      Processed o r path (s, w) ({ s with errors := s.errors + 1 }, w')
  /-- All reports are printed, and the change is refused: one more error. -/
  | unwritten (s : Summary) (w w' : Session) (source formatted reason : Text)
      (running : s.fault = none) (read : readText w.root w.cwd path = .ok source)
      (format : (Source.format o source).result = .ok formatted) (differs : formatted ≠ source)
      (inPlace : r.inPlace = true) (refused : w.writeRefusal w.writes = some reason)
      (prints : w.Prints (reportsOf r path source formatted)
        (reportsOf r path source formatted).length 1 w')
      (root : w'.root = w.root)
      (report : w'.events.getLast? = some (.failed (.io path reason))) :
      Processed o r path (s, w) ({ s with errors := s.errors + 1 }, w')
  | kept (s : Summary) (w w' : Session) (source : Text) (running : s.fault = none)
      (read : readText w.root w.cwd path = .ok source)
      (format : (Source.format o source).result = .ok source)
      (prints : w.Prints (reportsOf r path source source)
        (reportsOf r path source source).length 0 w')
      (root : w'.root = w.root) :
      Processed o r path (s, w) (s, w')
  | listed (s : Summary) (w w' : Session) (source formatted : Text) (running : s.fault = none)
      (read : readText w.root w.cwd path = .ok source)
      (format : (Source.format o source).result = .ok formatted) (differs : formatted ≠ source)
      (inPlace : r.inPlace = false)
      (prints : w.Prints (reportsOf r path source formatted)
        (reportsOf r path source formatted).length 0 w')
      (root : w'.root = w.root) :
      Processed o r path (s, w) ({ s with changed := s.changed ++ [path] }, w')
  | replaced (s : Summary) (w w' : Session) (source formatted : Text) (location : Location)
      (running : s.fault = none) (place : resolve w.root w.cwd path = .ok location)
      (read : w.root.fileAt location = some (.text source))
      (format : (Source.format o source).result = .ok formatted) (differs : formatted ≠ source)
      (inPlace : r.inPlace = true) (accepted : w.writeRefusal w.writes = none)
      (prints : w.Prints (reportsOf r path source formatted)
        (reportsOf r path source formatted).length 1 w')
      (files : w'.root.fileAt = Function.update w.root.fileAt location (some (.text formatted)))
      (kinds : w'.root.kindAt = w.root.kindAt) :
      Processed o r path (s, w) ({ s with changed := s.changed ++ [path] }, w')

section Processing

variable {o : Options} {r : RunOptions} {path : Text} {s : Summary} {w : Session}

/-- The tally and the session after a file, from what its processing ended in. -/
private def counted (s : Summary) (path : Text) : Except Failure Bool × Session → Summary × Session
  | (.ok true, w') => ({ s with changed := s.changed ++ [path] }, w')
  | (.ok false, w') => (s, w')
  | (.error (.error cause), w') =>
    ({ s with errors := s.errors + 1 }, { w' with events := w'.events ++ [.failed cause] })
  | (.error (.fault cause), w') => ({ s with fault := some cause }, w')

private theorem runFile_eq (hrunning : s.fault = none) :
    (runFile o r s path).run w = counted s path (outcome (processFile o r path) w) := by
  have hgo : ¬ s.fault.isSome = true := by simp [hrunning]
  unfold runFile outcome
  rw [if_neg hgo, StateT.run_bind]
  cases StateT.run (ExceptT.run (processFile o r path)) w with
  | mk result w' =>
    rcases result with (_ | _) | (_ | _) <;> rfl

private theorem processed_publish (hpath : path ≠ stdinPath) (hrunning : s.fault = none)
    {source formatted : Text} (events : List Event)
    (hread : readText w.root w.cwd path = .ok source)
    (hformat : (Source.format o source).result = .ok formatted) :
    Processed o r path (s, w)
      (counted s path (outcome (publish r path source formatted) { w with events := events })) := by
  obtain ⟨location, hplace, hfile⟩ := readText_eq_ok.mp hread
  obtain ⟨after, hwrite, hfiles, hkinds⟩ := exists_of_writeText hplace hfile formatted
  have hnothing : w.Prints [] ([] : List Text).length 0 { w with events := events } :=
    Session.prints_nil w events
  have hpublished : Published path (reportsOf r path source formatted) _ _ w _ :=
    (published (w := { w with events := events }) r hpath source hwrite).after_prints hnothing rfl
  generalize outcome (publish r path source formatted) { w with events := events } = x
    at hpublished
  cases hpublished with
  | misreported done rest text reason w' split refused prints root =>
    exact .misreported s w _ source formatted done rest text reason hrunning hread hformat split
      refused (prints.events _) root (by simp)
  | unwritten after' reason w' store refused prints root =>
    obtain ⟨⟨hinPlace, hdiffers⟩, -⟩ := Option.ite_none_right_eq_some.mp store
    exact .unwritten s w _ source formatted reason hrunning hread hformat hdiffers hinPlace refused
      (prints.events _) root (by simp)
  | reported w' idle prints root =>
    by_cases hsame : formatted = source
    · subst hsame
      simp only [bne_self_eq_false]
      exact .kept s w w' formatted hrunning hread hformat prints root
    · have hchanged : (formatted != source) = true := by simpa using hsame
      have hidle : r.inPlace = false := by
        by_contra hinPlace
        rw [if_pos ⟨by simpa using hinPlace, hsame⟩] at idle
        cases idle
      simp only [hchanged]
      exact .listed s w w' source formatted hrunning hread hformat hsame hidle prints root
  | written after' w' store accepted prints root =>
    obtain ⟨⟨hinPlace, hdiffers⟩, hafter⟩ := Option.ite_none_right_eq_some.mp store
    obtain rfl : after = w'.root := (Option.some.inj hafter).trans root.symm
    have hchanged : (formatted != source) = true := by simpa using hdiffers
    simp only [hchanged]
    exact .replaced s w w' source formatted location hrunning hplace hfile hformat hdiffers hinPlace
      accepted prints hfiles hkinds

theorem processed_runFile (o : Options) (r : RunOptions) (hpath : path ≠ stdinPath)
    (s : Summary) (w : Session) : Processed o r path (s, w) ((runFile o r s path).run w) := by
  cases hfault : s.fault with
  | some fault =>
    have hrun : (runFile o r s path).run w = (s, w) := by
      unfold runFile
      simp only [hfault, Option.isSome_some, if_true]
      rfl
    rw [hrun]
    exact .stopped s w (by simp [hfault])
  | none =>
    rw [runFile_eq hfault]
    unfold processFile
    rw [outcome_bind, outcome_read hpath]
    cases hread : readText w.root w.cwd path with
    | error cause =>
      exact .unread s w _ cause hfault hread (Session.prints_nil w _) rfl rfl
    | ok source =>
      simp only [mapError_ok, outcome_bind, outcome_trace]
      cases hformat : (Source.format o source).result with
      | error fault =>
        exact .faulted s w _ source fault hfault hread hformat (Session.prints_nil w _) rfl
      | ok formatted => exact processed_publish hpath hfault _ hread hformat

end Processing

end DocstringFormat.Files
