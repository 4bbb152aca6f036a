import DocstringFormat.Proofs.Text.Lines
import DocstringFormat.Text.LineEnding

/-!
Line endings.

All lines of a text without carriage returns end with line feeds, and giving them that ending
changes nothing (`terminateAll_terminatedLines`).  Giving them another one can be taken back, and the
ending that most lines have is then that one (`terminatedLines_terminateAll`,
`dominant_terminateAll`).
-/

set_option autoImplicit false

namespace DocstringFormat.Text

theorem dropLineEnding_of_not_mem {b : Text} (hb : '\n' ∉ b) (hr : '\r' ∉ b) :
    dropLineEnding b = b := by
  rcases List.eq_nil_or_concat' b with rfl | ⟨u, c, rfl⟩
  · rfl
  · have hc : (c == '\r' || c == '\n') = false := by
      simp only [List.mem_append, List.mem_singleton, not_or] at hb hr
      simp [Ne.symm hb.2, Ne.symm hr.2]
    rw [dropLineEnding, dropEndWhile, List.reverse_append, List.reverse_singleton,
      List.singleton_append, List.dropWhile_cons_of_neg (by simp [hc])]
    simp

private theorem terminate_of_not_mem {b : Text} (hb : '\n' ∉ b) (hr : '\r' ∉ b) :
    terminate ['\n'] b = b := by
  rw [terminate, dropLineEnding_of_not_mem hb hr, if_pos rfl]

private theorem terminate_append_newline {b : Text} (hb : '\n' ∉ b) (hr : '\r' ∉ b) :
    terminate ['\n'] (b ++ ['\n']) = b ++ ['\n'] := by
  have hdrop : dropLineEnding (b ++ ['\n']) = b := by
    have h := dropLineEnding_of_not_mem hb hr
    rw [dropLineEnding, dropEndWhile] at h ⊢
    rw [List.reverse_append, List.reverse_singleton, List.singleton_append,
      List.dropWhile_cons_of_pos (by simp), h]
  rw [terminate, hdrop, if_neg (by simp)]

theorem terminatedLines_of_not_mem {b : Text} (hne : b ≠ []) (hb : '\n' ∉ b) (hr : '\r' ∉ b) :
    terminatedLines b = [b] := by
  induction b with
  | nil => exact absurd rfl hne
  | cons c b ih =>
    have hc : c ≠ '\n' ∧ c ≠ '\r' := by
      simp only [List.mem_cons, not_or] at hb hr
      exact ⟨Ne.symm hb.1, Ne.symm hr.1⟩
    rw [terminatedLines, if_neg (by simp [hc])]
    · cases b with
      | nil => rfl
      | cons d b =>
        rw [ih (by simp) (fun h => hb (List.mem_cons_of_mem c h))
          fun h => hr (List.mem_cons_of_mem c h)]
        rfl
    · intro rest h
      exact fun _ => hc.2 h

private theorem terminatedLines_append_newline {b : Text} (hb : '\n' ∉ b) (hr : '\r' ∉ b)
    (s : Text) :
    terminatedLines (b ++ '\n' :: s) = (b ++ ['\n']) :: terminatedLines s := by
  induction b with
  | nil =>
    rw [List.nil_append, terminatedLines]
    · rfl
    · intro rest h
      cases h
  | cons c b ih =>
    have hc : c ≠ '\n' ∧ c ≠ '\r' := by
      simp only [List.mem_cons, not_or] at hb hr
      exact ⟨Ne.symm hb.1, Ne.symm hr.1⟩
    rw [List.cons_append, terminatedLines, if_neg (by simp [hc]),
      ih (fun h => hb (List.mem_cons_of_mem c h)) fun h => hr (List.mem_cons_of_mem c h)]
    · rfl
    · intro rest h
      exact fun _ => hc.2 h

/-- Without carriage returns every line keeps its ending. -/
theorem terminateAll_terminatedLines {s : Text} (hr : '\r' ∉ s) :
    terminateAll ['\n'] s.terminatedLines = s := by
  induction s using line_induction with
  | last b hb =>
    by_cases hne : b = []
    · subst hne
      rfl
    · rw [terminatedLines_of_not_mem hne hb hr]
      simp [terminateAll, terminate_of_not_mem hb hr]
  | line b s hb ih =>
    simp only [List.mem_append, List.mem_cons, not_or] at hr
    obtain ⟨hrb, -, hrs⟩ := hr
    have hrest := ih hrs
    rw [terminateAll] at hrest ⊢
    rw [terminatedLines_append_newline hb hrb, List.flatMap_cons, hrest,
      terminate_append_newline hb hrb]
    simp

private theorem ofLine?_of_not_mem {line : Text} (hr : '\r' ∉ line) :
    LineEnding.ofLine? line = none ∨ LineEnding.ofLine? line = some .lf := by
  have hr' : '\r' ∉ line.reverse := by simpa using hr
  rw [LineEnding.ofLine?]
  split
  · rename_i h
    simp [h] at hr'
  · rename_i h
    simp [h] at hr'
  · exact Or.inr rfl
  · exact Or.inl rfl

theorem flatten_terminatedLines (s : Text) : s.terminatedLines.flatten = s := by
  have hextend : ∀ c ls, (extendFirst c ls).flatten = c :: List.flatten ls := by
    intro c ls
    cases ls <;> simp [extendFirst]
  fun_induction terminatedLines s with
  | case1 => rfl
  | case2 rest ih => simp [ih]
  | case3 c rest _ _ ih => simp [ih]
  | case4 c rest _ _ ih => rw [hextend, ih]

theorem dominant_terminatedLines {s : Text} (hr : '\r' ∉ s) :
    LineEnding.dominant s.terminatedLines = .lf := by
  have hends : ∀ e ∈ s.terminatedLines.filterMap LineEnding.ofLine?, e = .lf := by
    intro e he
    obtain ⟨line, hline, hsome⟩ := List.mem_filterMap.mp he
    have hmem : '\r' ∉ line := by
      intro hin
      apply hr
      rw [← flatten_terminatedLines s]
      exact List.mem_flatten.mpr ⟨line, hline, hin⟩
    rcases ofLine?_of_not_mem hmem with hnone | hlf
    · rw [hnone] at hsome
      cases hsome
    · rw [hlf] at hsome
      exact (Option.some.inj hsome).symm
  have hcrlf : (s.terminatedLines.filterMap LineEnding.ofLine?).count .crlf = 0 :=
    List.count_eq_zero.mpr fun h => by cases hends _ h
  have hcr : (s.terminatedLines.filterMap LineEnding.ofLine?).count .cr = 0 :=
    List.count_eq_zero.mpr fun h => by cases hends _ h
  simp [LineEnding.dominant, hcrlf, hcr]

section Restored

variable {s : Text} {c : Char} {ls : List Text}

private theorem terminate_cons (hn : c ≠ '\n') (hr : c ≠ '\r') (newline line : Text) :
    terminate newline (c :: line) = c :: terminate newline line := by
  have hdrop : dropLineEnding (c :: line) = c :: dropLineEnding line := by
    rw [dropLineEnding, dropEndWhile, List.reverse_cons, List.dropWhile_append, dropLineEnding,
      dropEndWhile]
    split
    · rename_i hnil
      rw [List.isEmpty_iff.mp hnil, List.dropWhile_cons_of_neg (by simp [hn, hr])]
      rfl
    · rw [List.reverse_append]
      rfl
  rw [terminate, terminate, hdrop, List.length_cons, List.length_cons]
  simp only [Nat.add_right_cancel_iff]
  split <;> rfl

private theorem terminateAll_extendFirst (hn : c ≠ '\n') (hr : c ≠ '\r') (newline : Text)
    (ls : List Text) :
    terminateAll newline (extendFirst c ls) = c :: terminateAll newline ls := by
  cases ls with
  | nil =>
    have hline : terminate newline [c] = [c] := terminate_cons hn hr newline []
    rw [extendFirst, terminateAll, List.flatMap_singleton, hline]
    rfl
  | cons line ls => simp [extendFirst, terminateAll, terminate_cons hn hr]

private theorem terminatedLines_cons (hn : c ≠ '\n') (hr : c ≠ '\r') (s : Text) :
    terminatedLines (c :: s) = extendFirst c (terminatedLines s) := by
  rw [terminatedLines, if_neg (by simp [hn, hr])]
  exact fun rest h _ => hr h

theorem not_mem_terminateAll {newline : Text} {d : Char} (hd : d = '\n' ∨ d = '\r')
    (hnewline : d ∉ newline) (s : Text) : d ∉ terminateAll newline s.terminatedLines := by
  have hends : ∀ line ls, dropLineEnding line = [] → line ≠ [] →
      terminateAll newline (line :: ls) = newline ++ terminateAll newline ls := by
    intro line ls hdrop hne
    have hlength : ([] : Text).length ≠ line.length := by
      simpa [eq_comm] using hne
    rw [terminateAll, List.flatMap_cons, terminate, hdrop, if_neg hlength]
    rfl
  fun_induction terminatedLines s with
  | case1 => simp [terminateAll]
  | case2 rest ih =>
    rw [hends _ _ (by decide) (by simp), List.mem_append]
    exact not_or.mpr ⟨hnewline, ih⟩
  | case3 c rest _ hc ih =>
    have hdrop : dropLineEnding [c] = [] := by
      simp [dropLineEnding, dropEndWhile, Bool.or_comm, hc]
    rw [hends _ _ hdrop (by simp), List.mem_append]
    exact not_or.mpr ⟨hnewline, ih⟩
  | case4 c rest _ hc ih =>
    simp only [Bool.or_eq_true, beq_iff_eq, not_or] at hc
    rw [terminateAll_extendFirst hc.1 hc.2, List.mem_cons, not_or]
    refine ⟨?_, ih⟩
    rcases hd with rfl | rfl
    · exact Ne.symm hc.1
    · exact Ne.symm hc.2

private theorem terminatedLines_ending (e : LineEnding) {y : Text} (hy : e = .cr → '\n' ∉ y) :
    terminatedLines (e.text ++ y) = e.text :: terminatedLines y := by
  cases e with
  | lf =>
    rw [LineEnding.text, List.singleton_append, terminatedLines, if_pos (by decide)]
    intro rest h
    cases h
  | crlf => rw [LineEnding.text, List.cons_append, List.singleton_append, terminatedLines]
  | cr =>
    rw [LineEnding.text, List.singleton_append, terminatedLines, if_pos (by decide)]
    rintro rest - rfl
    exact hy rfl (by simp)

private theorem ofLine?_cons (hr : c ≠ '\r') (hn : c ≠ '\n') (line : Text) :
    LineEnding.ofLine? (c :: line) = LineEnding.ofLine? line := by
  rw [LineEnding.ofLine?, LineEnding.ofLine?, List.reverse_cons]
  generalize line.reverse = r
  rcases r with _ | ⟨d, _ | ⟨e, r⟩⟩
  · simp [hr, hn]
  · rw [List.singleton_append]
    by_cases hd : d = '\n'
    · simp [hd, hr]
    · by_cases hd' : d = '\r'
      · simp [hd']
      · simp [hd, hd']
  · rw [List.cons_append, List.cons_append]
    by_cases hd : d = '\n'
    · by_cases he : e = '\r'
      · simp [hd, he]
      · simp [hd, he]
    · by_cases hd' : d = '\r'
      · simp [hd']
      · simp [hd, hd']

private theorem terminateAll_newline_cons (newline s : Text) :
    terminateAll newline (terminatedLines ('\n' :: s)) =
      newline ++ terminateAll newline (terminatedLines s) := by
  have hlines := terminatedLines_append_newline (b := []) (by simp) (by simp) s
  rw [List.nil_append] at hlines
  rw [hlines, terminateAll, List.flatMap_cons]
  rfl

/-- Another ending for the lines of a text can be taken back, and all its lines have it. -/
theorem terminatedLines_terminateAll (e : LineEnding) (hr : '\r' ∉ s) :
    terminateAll ['\n'] (terminateAll e.text s.terminatedLines).terminatedLines = s ∧
      (terminateAll e.text s.terminatedLines).terminatedLines.filterMap LineEnding.ofLine? =
        List.replicate (s.count '\n') e := by
  have hfree : e = .cr → ∀ t : Text, '\n' ∉ terminateAll e.text t.terminatedLines := by
    rintro rfl t
    exact not_mem_terminateAll (Or.inl rfl) (by decide) t
  induction s with
  | nil => exact ⟨rfl, rfl⟩
  | cons c s ih =>
    obtain ⟨hback, hends⟩ := ih fun h => hr (List.mem_cons_of_mem c h)
    have hcr : c ≠ '\r' := fun h => hr (by simp [h])
    by_cases hc : c = '\n'
    · subst hc
      have hterminate : terminate ['\n'] e.text = ['\n'] := by cases e <;> decide
      have hof : LineEnding.ofLine? e.text = some e := by cases e <;> rfl
      rw [terminateAll_newline_cons, terminatedLines_ending e fun he => hfree he s,
        List.count_cons_self, List.replicate_succ, List.filterMap_cons, hof, hends, terminateAll,
        List.flatMap_cons, hterminate]
      exact ⟨congrArg _ hback, rfl⟩
    · have hsame : ∀ ls, (extendFirst c ls).filterMap LineEnding.ofLine? =
          ls.filterMap LineEnding.ofLine? := by
        intro ls
        cases ls with
        | nil =>
          have hnone : LineEnding.ofLine? [c] = none := ofLine?_cons hcr hc []
          rw [extendFirst, List.filterMap_cons, hnone]
        | cons line ls => simp [extendFirst, List.filterMap_cons, ofLine?_cons hcr hc]
      rw [terminatedLines_cons hc hcr, terminateAll_extendFirst hc hcr, terminatedLines_cons hc hcr,
        terminateAll_extendFirst hc hcr, hsame, hback, hends, List.count_cons_of_ne hc]
      exact ⟨rfl, rfl⟩

theorem dominant_terminateAll (e : LineEnding) (hr : '\r' ∉ s) (hn : '\n' ∈ s) :
    LineEnding.dominant (terminateAll e.text s.terminatedLines).terminatedLines = e := by
  have hcount : 0 < s.count '\n' := List.count_pos_iff.mpr hn
  simp only [LineEnding.dominant, (terminatedLines_terminateAll e hr).2, List.count_replicate]
  cases e <;> simp [hcount]

end Restored

section Replaced

variable {s b y newline : Text}

/-- A text with `newline` in place of every line feed. -/
def replaceNewlines (newline s : Text) : Text :=
  s.flatMap fun c => if c = '\n' then newline else [c]

private theorem replaceNewlines_append (newline s t : Text) :
    replaceNewlines newline (s ++ t) = replaceNewlines newline s ++ replaceNewlines newline t :=
  List.flatMap_append

private theorem replaceNewlines_newline (newline s : Text) :
    replaceNewlines newline ('\n' :: s) = newline ++ replaceNewlines newline s := rfl

private theorem replaceNewlines_of_not_mem (newline : Text) (hb : '\n' ∉ b) :
    replaceNewlines newline b = b := by
  induction b with
  | nil => rfl
  | cons c b ih =>
    have hc : c ≠ '\n' := fun h => hb (by simp [h])
    rw [replaceNewlines, List.flatMap_cons, if_neg hc]
    exact congrArg (c :: ·) (ih fun h => hb (List.mem_cons_of_mem c h))

theorem terminateAll_eq_replaceNewlines (newline : Text) (hr : '\r' ∉ s) :
    terminateAll newline s.terminatedLines = replaceNewlines newline s := by
  induction s with
  | nil => rfl
  | cons c s ih =>
    have hrest := ih fun h => hr (List.mem_cons_of_mem c h)
    have hcr : c ≠ '\r' := fun h => hr (by simp [h])
    by_cases hc : c = '\n'
    · subst hc
      rw [terminateAll_newline_cons, replaceNewlines_newline, hrest]
    · rw [terminatedLines_cons hc hcr, terminateAll_extendFirst hc hcr, hrest, replaceNewlines,
        replaceNewlines, List.flatMap_cons, if_neg hc]
      rfl

private theorem terminatedLines_append_ending (e : LineEnding) (hb : '\n' ∉ b) (hr : '\r' ∉ b)
    (hy : e = .cr → '\n' ∉ y) :
    terminatedLines (b ++ (e.text ++ y)) = (b ++ e.text) :: terminatedLines y := by
  induction b with
  | nil => exact terminatedLines_ending e hy
  | cons c b ih =>
    simp only [List.mem_cons, not_or] at hb hr
    rw [List.cons_append, terminatedLines_cons (Ne.symm hb.1) (Ne.symm hr.1), ih hb.2 hr.2]
    rfl

theorem mem_terminatedLines_replaceNewlines (e : LineEnding) (hr : '\r' ∉ s) {line : Text}
    (hline : line ∈ terminatedLines (replaceNewlines e.text s)) :
    ∃ body, (line = body ∨ line = body ++ e.text) ∧ '\n' ∉ body ∧ '\r' ∉ body := by
  induction s using line_induction with
  | last b hb =>
    rw [replaceNewlines_of_not_mem e.text hb] at hline
    by_cases hne : b = []
    · rw [hne] at hline
      cases hline
    · rw [terminatedLines_of_not_mem hne hb hr] at hline
      exact ⟨b, Or.inl (List.mem_singleton.mp hline), hb, hr⟩
  | line b s hb ih =>
    simp only [List.mem_append, List.mem_cons, not_or] at hr
    obtain ⟨hrb, -, hrs⟩ := hr
    have hfree : e = .cr → '\n' ∉ replaceNewlines e.text s := by
      rintro rfl
      rw [← terminateAll_eq_replaceNewlines _ hrs]
      exact not_mem_terminateAll (Or.inl rfl) (by decide) s
    rw [replaceNewlines_append, replaceNewlines_of_not_mem e.text hb, replaceNewlines_newline,
      terminatedLines_append_ending e hb hrb hfree] at hline
    rcases List.mem_cons.mp hline with rfl | hline
    · exact ⟨b, Or.inr rfl, hb, hrb⟩
    · exact ih hrs hline

theorem count_le_dominant (ls : List Text) (e : LineEnding) :
    (ls.filterMap LineEnding.ofLine?).count e ≤
      (ls.filterMap LineEnding.ofLine?).count (LineEnding.dominant ls) := by
  unfold LineEnding.dominant
  generalize ls.filterMap LineEnding.ofLine? = ends
  dsimp only
  split
  · cases e <;> omega
  · split
    · cases e <;> omega
    · cases e <;> omega

end Replaced

end DocstringFormat.Text
