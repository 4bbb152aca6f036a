import DocstringFormat.Proofs.Text.Bytes
import DocstringFormat.Proofs.Text.Fill

/-!
Which characters a text has after it was cut, joined, indented or filled: those it had before,
those of the indentation, spaces and line feeds.
-/

set_option autoImplicit false

namespace DocstringFormat.Text

/-- All characters of a text are in a class. -/
def Over (P : Char → Prop) (s : Text) : Prop :=
  ∀ c ∈ s, P c

section Over

variable {P : Char → Prop} {s t : Text}

@[simp] theorem over_nil : Over P [] := by
  simp [Over]

@[simp] theorem over_cons {c : Char} : Over P (c :: s) ↔ P c ∧ Over P s := by
  simp [Over]

@[simp] theorem over_append : Over P (s ++ t) ↔ Over P s ∧ Over P t := by
  simp only [Over, List.mem_append, or_imp, forall_and]

theorem Over.subset (h : Over P s) (hsub : t ⊆ s) : Over P t :=
  fun c hc => h c (hsub hc)

theorem Over.dropEndWhile (h : Over P s) (p : Char → Bool) : Over P (Text.dropEndWhile p s) :=
  h.subset (dropEndWhile_isPrefix p s).subset

theorem Over.trimEnd (h : Over P s) : Over P (Text.trimEnd s) :=
  h.dropEndWhile _

theorem Over.trimStart (h : Over P s) : Over P (Text.trimStart s) :=
  h.subset (List.dropWhile_suffix _).subset

theorem Over.trim (h : Over P s) : Over P (Text.trim s) :=
  h.trimStart.trimEnd

theorem over_join {sep : Text} {ls : List Text} (hsep : Over P sep) (h : ∀ l ∈ ls, Over P l) :
    Over P (join sep ls) := by
  fun_induction join sep ls with
  | case1 => exact over_nil
  | case2 s => exact h s (by simp)
  | case3 s t rest ih =>
    simp only [over_append]
    exact ⟨⟨h s (by simp), hsep⟩, ih fun l hl => h l (List.mem_cons_of_mem s hl)⟩

theorem over_unlines {ls : List Text} (hnewline : P '\n') (h : ∀ l ∈ ls, Over P l) :
    Over P (unlines ls) :=
  over_join (by simpa using hnewline) h

theorem Over.unwrap (h : Over P s) (hspace : P ' ') : Over P (Text.unwrap s) :=
  over_join (by simpa using hspace) fun _ hw => h.subset (mem_words hw).2.2.subset

theorem Over.rawLines (h : Over P s) : ∀ l ∈ Text.rawLines s, Over P l := by
  intro l hl c hc
  apply h c
  rw [← flatten_rawLines s]
  exact List.mem_flatten.mpr ⟨l, hl, hc⟩

theorem Over.dropTerminator (h : Over P s) : Over P (Text.dropTerminator s) := by
  unfold Text.dropTerminator
  split
  · exact h
  · rename_i body hbody
    rw [before?_eq_some] at hbody
    have hover : Over P body := h.subset (by rw [hbody]; exact List.subset_append_left _ _)
    split
    · exact hover
    · rename_i shorter hshorter
      rw [before?_eq_some] at hshorter
      exact hover.subset (by rw [hshorter]; exact List.subset_append_left _ _)

theorem Over.lines (h : Over P s) : ∀ l ∈ Text.lines s, Over P l := by
  intro l hl
  obtain ⟨raw, hraw, rfl⟩ := List.mem_map.mp hl
  exact (h.rawLines raw hraw).dropTerminator

theorem Over.after? {lead rest : Text} (h : Over P s) (hrest : Text.after? lead s = some rest) :
    Over P rest := by
  rw [after?_eq_some] at hrest
  exact h.subset (by rw [hrest]; exact List.subset_append_right _ _)

theorem Over.before? {tail rest : Text} (h : Over P s) (hrest : Text.before? tail s = some rest) :
    Over P rest := by
  rw [before?_eq_some] at hrest
  exact h.subset (by rw [hrest]; exact List.subset_append_left _ _)

theorem Over.takeBytes (h : Over P s) (n : Nat) : Over P (Text.takeBytes n s) := by
  refine h.subset ?_
  conv_rhs => rw [← takeBytes_append_dropBytes n s]
  exact List.subset_append_left _ _

theorem Over.dropBytes (h : Over P s) (n : Nat) : Over P (Text.dropBytes n s) := by
  refine h.subset ?_
  conv_rhs => rw [← takeBytes_append_dropBytes n s]
  exact List.subset_append_right _ _

theorem Over.extract (h : Over P s) (lo hi : Nat) : Over P (Text.extract s lo hi) :=
  (h.dropBytes lo).takeBytes _

theorem Over.extract? (h : Over P s) (lo hi : Nat) :
    Over P ((Text.extract? s lo hi).getD []) := by
  unfold Text.extract?
  split
  · exact h.extract lo hi
  · exact over_nil

theorem Over.dedent (h : Over P s) (hnewline : P '\n') : Over P (Text.dedent s) := by
  have hbody : Over P (unlines ((Text.lines s).map (dropMargin (margin (Text.lines s))))) := by
    apply over_unlines hnewline
    intro l hl
    obtain ⟨line, hline, rfl⟩ := List.mem_map.mp hl
    unfold dropMargin
    split
    · exact over_nil
    · cases hafter : Text.after? (margin (Text.lines s)) line with
      | none => exact over_nil
      | some rest => exact (h.lines line hline).after? hafter
  simp only [Text.dedent]
  split
  · simp [hbody, hnewline]
  · exact hbody

theorem over_expandTabs (h : Over (fun c => c ≠ '\t' → P c) s) (hspace : P ' ') :
    Over P (Text.expandTabs s) := by
  unfold Text.expandTabs
  generalize 0 = column
  induction s generalizing column with
  | nil => exact over_nil
  | cons c s ih =>
    rw [over_cons] at h
    unfold expandTabsFrom
    split
    · rw [over_append]
      refine ⟨?_, ih h.2 _⟩
      intro d hd
      rw [List.eq_of_mem_replicate hd]
      exact hspace
    · rename_i hc
      split
      · exact over_cons.mpr ⟨h.1 hc, ih h.2 _⟩
      · exact over_cons.mpr ⟨h.1 hc, ih h.2 _⟩

theorem Over.expandTabs (h : Over P s) (hspace : P ' ') : Over P (Text.expandTabs s) :=
  over_expandTabs (fun c hc _ => h c hc) hspace

theorem Over.reindent {indentation : Text} (h : Over P s) (hindent : Over P indentation)
    (hspace : P ' ') (hnewline : P '\n') : Over P (Text.reindent indentation s) := by
  have hspaced : Over P (if '\t' ∈ indentation then s else Text.expandTabs s) := by
    split
    · exact h
    · exact h.expandTabs hspace
  rw [Text.reindent, over_append]
  refine ⟨Over.trimEnd (over_unlines hnewline ?_), by simpa using hnewline⟩
  intro l hl
  obtain ⟨line, hline, rfl⟩ := List.mem_map.mp hl
  exact Over.trimEnd (over_append.mpr ⟨hindent, (hspaced.dedent hnewline).lines line hline⟩)

theorem Over.dropLeadingBlankLines (h : Over P s) (hnewline : P '\n') :
    Over P (Text.dropLeadingBlankLines s) := by
  unfold Text.dropLeadingBlankLines
  split
  · exact over_unlines hnewline h.lines
  · apply over_unlines hnewline
    intro l hl
    exact h.lines l ((List.dropWhile_suffix _).subset hl)

private theorem over_lineText {ws : List SpacedWord} (hspace : P ' ')
    (h : ∀ w ∈ ws, Over P w.body) :
    Over P (lineText ws) := by
  fun_induction lineText ws with
  | case1 => exact over_nil
  | case2 w => exact h w (by simp)
  | case3 w next ws ih =>
    simp only [over_append]
    refine ⟨⟨h w (by simp), ?_⟩, ih fun v hv => h v (List.mem_cons_of_mem w hv)⟩
    intro c hc
    rw [List.eq_of_mem_replicate hc]
    exact hspace

theorem Over.flatten (h : Over P s) (hspace : P ' ') : Over P (Text.flatten s) := by
  refine Over.trim ?_
  intro c hc
  obtain ⟨d, hd, rfl⟩ := List.mem_map.mp hc
  split
  · exact hspace
  · exact h.expandTabs hspace d hd

theorem Over.fill {initial subsequent : Text} (h : Over P s) (hspace : P ' ')
    (hinitial : Over P initial) (hsubsequent : Over P subsequent) (columns : Nat) :
    ∀ l ∈ Text.fill s columns initial subsequent, Over P l := by
  have hbodies : ∀ w ∈ spacedWords (Text.flatten s), Over P w.body := by
    intro w hw c hc
    apply h.flatten hspace c
    rw [← unspace_spacedWords (Text.flatten s)]
    exact List.mem_flatMap.mpr ⟨w, hw, List.mem_append_left _ hc⟩
  simp only [Text.fill]
  split
  · simp
  · have hpack := flatten_pack (max columns 1 - width initial) (max columns 1 - width subsequent)
      (spacedWords (Text.flatten s))
    generalize pack (max columns 1 - width initial) (max columns 1 - width subsequent)
      (spacedWords (Text.flatten s)) = lines at hpack
    have hline : ∀ line ∈ lines, Over P (lineText line) := by
      intro line hline
      apply over_lineText hspace
      intro w hw
      apply hbodies w
      rw [← hpack]
      exact List.mem_flatten.mpr ⟨line, hline, hw⟩
    cases lines with
    | nil => simp
    | cons first rest =>
      intro l hl
      rcases List.mem_cons.mp hl with rfl | hl
      · exact over_append.mpr ⟨hinitial, hline first (by simp)⟩
      · obtain ⟨line, hmem, rfl⟩ := List.mem_map.mp hl
        exact over_append.mpr ⟨hsubsequent, hline line (List.mem_cons_of_mem _ hmem)⟩

end Over

end DocstringFormat.Text
