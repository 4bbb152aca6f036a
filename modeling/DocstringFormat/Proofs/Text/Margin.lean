import DocstringFormat.Proofs.Text.Breaks

/-!
Indenting a text anew, more than once.

`reindent` puts the indentation in place of the margin of each line (`reindent_eq`).  What is left of
the margin that the lines other than blank ones share stays behind the indentation
(`margin_map_indentLine`), and lines that share just the indentation are written as they are
(`map_indentLine_eq_self`).  So a second pass changes nothing exactly if no blank line has narrowed the
margin of the first (`reindent_idempotent_iff`).
-/

set_option autoImplicit false

namespace DocstringFormat.Text

/-- The text whose lines are indented anew: an indentation without tabs has tabs expanded first. -/
def spacedFor (indentation s : Text) : Text :=
  if '\t' ∈ indentation then s else expandTabs s

/-- No blank line narrows the margin that the other lines share. -/
def MarginKept (ls : List Text) : Prop :=
  margin ls = margin (ls.filter fun line => !isBlank line)

instance (ls : List Text) : Decidable (MarginKept ls) :=
  inferInstanceAs (Decidable (margin ls = margin (ls.filter fun line => !isBlank line)))

/-- A line with the indentation in place of the margin, and without blanks at its end. -/
def indentLine (indentation m line : Text) : Text :=
  trimEnd (indentation ++ dropMargin m line)

def closeLines (ls : List Text) : Text :=
  trimEnd (unlines ls) ++ ['\n']

section Ends

variable {a b g s t x y : Text} {l : Text} {ls : List Text}

theorem trimEnd_append_blank (s : Text) (hg : isBlank g = true) : trimEnd (s ++ g) = trimEnd s := by
  have hreverse : ∀ c ∈ g.reverse, Character.isBlank c = true := by
    rw [← isBlank_reverse] at hg
    exact List.all_eq_true.mp hg
  rw [trimEnd, dropEndWhile, List.reverse_append, List.dropWhile_append_of_pos hreverse]
  rfl

theorem exists_trimEnd_append (s : Text) : ∃ g, isBlank g = true ∧ s = trimEnd s ++ g := by
  refine ⟨_, ?_, (dropEndWhile_append Character.isBlank s).symm⟩
  rw [isBlank_reverse]
  exact isBlank_takeWhile _

private theorem trimEnd_append_congr (a : Text) (h : trimEnd x = trimEnd y) :
    trimEnd (a ++ x) = trimEnd (a ++ y) := by
  obtain ⟨g, hg, hx⟩ := exists_trimEnd_append x
  obtain ⟨k, hk, hy⟩ := exists_trimEnd_append y
  rw [hx, hy, ← List.append_assoc, ← List.append_assoc, trimEnd_append_blank _ hg,
    trimEnd_append_blank _ hk, h]

theorem trimEnd_append_of_not_blank (a : Text) (hx : isBlank x = false) :
    trimEnd (a ++ x) = a ++ trimEnd x := by
  obtain ⟨g, hg, hsplit⟩ := exists_trimEnd_append x
  have hne : trimEnd x ≠ [] := by
    intro hnil
    rw [hsplit, hnil, List.nil_append, hg] at hx
    cases hx
  have hlast : ∀ c, (a ++ trimEnd x).getLast? = some c → Character.isBlank c = false := by
    intro c hc
    rw [List.getLast?_append_of_ne_nil a hne] at hc
    exact getLast?_trimEnd hc
  conv_lhs => rw [hsplit, ← List.append_assoc]
  rw [trimEnd_append_blank _ hg, trimEnd_eq_self hlast]

theorem trimEnd_of_blank (h : isBlank s = true) : trimEnd s = [] :=
  trimEnd_append_blank [] h

private theorem trimEnd_unlines_cons (l : Text) (ls : List Text) :
    trimEnd (unlines (l :: ls)) = trimEnd (l ++ ['\n'] ++ unlines ls) := by
  cases ls with
  | nil =>
    rw [show unlines [] = [] from rfl, List.append_nil, trimEnd_append_blank l (by decide)]
    rfl
  | cons k ls => rw [unlines_cons_cons, List.append_assoc, List.singleton_append]

private theorem trimEnd_unlines_append_empty (ls : List Text) (n : Nat) :
    trimEnd (unlines (ls ++ List.replicate n [])) = trimEnd (unlines ls) := by
  induction ls with
  | nil =>
    have hblank : isBlank (unlines (List.replicate n [])) = true := by
      induction n with
      | zero => rfl
      | succ n ih =>
        cases n with
        | zero => rfl
        | succ n =>
          rw [List.replicate_succ, List.replicate_succ, unlines_cons_cons, List.nil_append,
            ← List.replicate_succ, ← List.singleton_append, isBlank_append, ih]
          rfl
    exact trimEnd_of_blank hblank
  | cons l ls ih =>
    rw [List.cons_append, trimEnd_unlines_cons, trimEnd_unlines_cons]
    exact trimEnd_append_congr _ ih

private theorem closeLines_append_empty (ls : List Text) (n : Nat) :
    closeLines (ls ++ List.replicate n []) = closeLines ls := by
  rw [closeLines, closeLines, trimEnd_unlines_append_empty]

private theorem eq_dropTerminator_or (b : Text) :
    b = dropTerminator (b ++ ['\n']) ∨ b = dropTerminator (b ++ ['\n']) ++ ['\r'] := by
  have hbody : before? ['\n'] (b ++ ['\n']) = some b := before?_eq_some.mpr rfl
  simp only [dropTerminator, hbody]
  split
  · exact Or.inl rfl
  · rename_i shorter hshorter
    exact Or.inr (before?_eq_some.mp hshorter)

private theorem trimEnd_unlines_map_lines {f : Text → Text} (hnil : f [] = [])
    (hreturn : ∀ b, f (b ++ ['\r']) = f b) (hls : ∀ l ∈ ls, '\n' ∉ l)
    (ht : t = [] ∨ t = ['\n']) :
    trimEnd (unlines ((lines (unlines ls ++ t)).map f)) = trimEnd (unlines (ls.map f)) := by
  induction ls with
  | nil =>
    rcases ht with rfl | rfl
    · rfl
    · rw [show lines (unlines [] ++ ['\n']) = [[]] from rfl, List.map_singleton, hnil]
      rfl
  | cons l ls ih =>
    have hl := hls l (by simp)
    have hread : f (dropTerminator (l ++ ['\n'])) = f l := by
      rcases eq_dropTerminator_or l with h | h
      · rw [← h]
      · conv_rhs => rw [h, hreturn]
    cases ls with
    | nil =>
      rw [show unlines [l] = l from rfl]
      rcases ht with rfl | rfl
      · by_cases hne : l = []
        · subst hne
          rw [List.map_singleton, hnil]
          rfl
        · rw [List.append_nil, lines_of_not_mem hne hl]
      · rw [lines_append_newline_eq hl, show lines [] = [] from rfl, List.map_singleton,
          List.map_singleton, hread]
    | cons k ls =>
      rw [unlines_cons_cons, List.append_assoc, List.cons_append, lines_append_newline_eq hl,
        List.map_cons, hread, List.map_cons, trimEnd_unlines_cons, trimEnd_unlines_cons]
      exact trimEnd_append_congr _ (ih fun k hk => hls k (List.mem_cons_of_mem l hk))

end Ends

section Written

variable {indentation m l s : Text} {ls : List Text}

structure Written (line : Text) : Prop where
  newline : '\n' ∉ line
  last : ∀ c, line.getLast? = some c → Character.isBlank c = false

private theorem Written.eq_nil_of_blank (h : Written l) (hblank : isBlank l = true) : l = [] := by
  rw [← trimEnd_eq_self h.last, trimEnd_of_blank hblank]

private theorem dropMargin_subset (m line : Text) : dropMargin m line ⊆ line := by
  unfold dropMargin
  split
  · exact List.nil_subset line
  · cases hafter : after? m line with
    | none => exact List.nil_subset line
    | some rest =>
      rw [after?_eq_some.mp hafter]
      exact List.subset_append_right m rest

private theorem written_indentLine (hind : '\n' ∉ indentation) (hl : '\n' ∉ l) :
    Written (indentLine indentation m l) where
  newline hmem := by
    rcases List.mem_append.mp ((dropEndWhile_isPrefix _ _).subset hmem) with hmem | hmem
    · exact hind hmem
    · exact hl (dropMargin_subset m l hmem)
  last _ hc := getLast?_trimEnd hc

private theorem reindent_eq (hind : isBlank indentation = true) (s : Text) :
    reindent indentation s =
      closeLines ((lines (spacedFor indentation s)).map
        (indentLine indentation (margin (lines (spacedFor indentation s))))) := by
  set ls := lines (spacedFor indentation s) with hls
  have hlines : ∀ l ∈ ls.map (dropMargin (margin ls)), '\n' ∉ l := by
    intro l hl hmem
    obtain ⟨line, hline, rfl⟩ := List.mem_map.mp hl
    exact newline_not_mem_lines hline (dropMargin_subset _ _ hmem)
  obtain ⟨t, ht, hdedent⟩ : ∃ t, (t = [] ∨ t = ['\n']) ∧
      dedent (spacedFor indentation s) = unlines (ls.map (dropMargin (margin ls))) ++ t := by
    simp only [dedent, ← hls]
    split
    · exact ⟨['\n'], Or.inr rfl, rfl⟩
    · exact ⟨[], Or.inl rfl, (List.append_nil _).symm⟩
  calc reindent indentation s
      = closeLines ((lines (dedent (spacedFor indentation s))).map
          fun line => trimEnd (indentation ++ line)) := rfl
    _ = closeLines (ls.map (indentLine indentation (margin ls))) := by
        rw [hdedent, closeLines, closeLines, trimEnd_unlines_map_lines _ _ hlines ht, List.map_map]
        · rfl
        · rw [List.append_nil, trimEnd_of_blank hind]
        · intro b
          rw [← List.append_assoc]
          exact trimEnd_append_blank _ (by decide)

private theorem lines_unlines_written (hne : ls ≠ []) (h : ∀ l ∈ ls, Written l) :
    lines (unlines ls ++ ['\n']) = ls := by
  induction ls with
  | nil => exact absurd rfl hne
  | cons l ls ih =>
    have hl := h l (by simp)
    have hreturn : l.getLast? ≠ some '\r' := by
      intro hlast
      exact absurd (hl.last _ hlast) (by decide)
    cases ls with
    | nil =>
      rw [show unlines [l] = l from rfl, lines_append_newline_of_last hl.newline hreturn]
      rfl
    | cons k ls =>
      rw [unlines_cons_cons, List.append_assoc, List.cons_append,
        lines_append_newline_of_last hl.newline hreturn,
        ih (by simp) fun k hk => h k (List.mem_cons_of_mem l hk)]

private theorem exists_lines_closeLines (h : ∀ l ∈ ls, Written l) :
    ∃ j k, lines (closeLines ls) ++ List.replicate j [] = ls ++ List.replicate k [] := by
  induction ls using List.reverseRecOn with
  | nil => exact ⟨0, 1, rfl⟩
  | append_singleton ls l ih =>
    by_cases hl : l = []
    · subst hl
      obtain ⟨j, k, hjk⟩ := ih fun l hl => h l (List.mem_append_left _ hl)
      have hclose : closeLines (ls ++ [[]]) = closeLines ls := closeLines_append_empty ls 1
      refine ⟨j + 1, k, ?_⟩
      rw [hclose, List.replicate_succ', ← List.append_assoc, hjk, List.append_assoc,
        ← List.replicate_succ', List.append_assoc]
      rfl
    · have hlast : ∀ c, (unlines (ls ++ [l])).getLast? = some c → Character.isBlank c = false := by
        intro c hc
        rw [unlines_concat, List.getLast?_append_of_ne_nil _ hl] at hc
        exact (h l (by simp)).last c hc
      refine ⟨0, 0, ?_⟩
      rw [closeLines, trimEnd_eq_self hlast, lines_unlines_written (by simp) h]

private theorem mem_of_mem_lines_closeLines (h : ∀ l ∈ ls, Written l)
    (hl : l ∈ lines (closeLines ls)) :
    l ∈ ls ∨ l = [] := by
  obtain ⟨j, k, hjk⟩ := exists_lines_closeLines h
  have hmem : l ∈ ls ++ List.replicate k [] := by
    rw [← hjk]
    exact List.mem_append_left _ hl
  rcases List.mem_append.mp hmem with hmem | hmem
  · exact Or.inl hmem
  · exact Or.inr (List.eq_of_mem_replicate hmem)

end Written

section Margin

variable {p m l : Text} {ls : List Text}

private theorem narrow_append (p m l : Text) : narrow (p ++ m) (p ++ l) = p ++ narrow m l := by
  induction p with
  | nil => rfl
  | cons c p ih => rw [List.cons_append, List.cons_append, narrow, if_pos rfl, ih, List.cons_append]

private theorem foldl_narrow_map_append (p m : Text) (ls : List Text) :
    (ls.map (p ++ ·)).foldl narrow (p ++ m) = p ++ ls.foldl narrow m := by
  induction ls generalizing m with
  | nil => rfl
  | cons l ls ih => rw [List.map_cons, List.foldl_cons, narrow_append, ih, List.foldl_cons]

private theorem margin_cons_of_not_blank (hl : isBlank l = false) (ls : List Text) :
    margin (l :: ls) = ls.foldl narrow (leadingBlanks l) := by
  rw [margin, if_neg (by simp [hl])]

private theorem margin_map_append (hp : isBlank p = true) (hne : ls ≠ [])
    (hls : ∀ l ∈ ls, isBlank l = false) : margin (ls.map (p ++ ·)) = p ++ margin ls := by
  cases ls with
  | nil => exact absurd rfl hne
  | cons l ls =>
    have hl := hls l (by simp)
    have hpl : isBlank (p ++ l) = false := by rw [isBlank_append, hl, Bool.and_false]
    have hlead : leadingBlanks (p ++ l) = p ++ leadingBlanks l :=
      List.takeWhile_append_of_pos (List.all_eq_true.mp hp)
    rw [List.map_cons, margin_cons_of_not_blank hpl, margin_cons_of_not_blank hl, hlead,
      foldl_narrow_map_append]

private theorem narrow_append_right (hm : isBlank m = true) (hl : isBlank l = false) (g : Text) :
    narrow m (l ++ g) = narrow m l := by
  induction m generalizing l with
  | nil => cases l <;> cases g <;> rfl
  | cons b m ih =>
    obtain ⟨hb, hm⟩ : Character.isBlank b = true ∧ isBlank m = true := by simpa [isBlank] using hm
    cases l with
    | nil => cases hl
    | cons c l =>
      rw [List.cons_append, narrow, narrow]
      split
      · rename_i hbc
        subst hbc
        rw [ih hm (by simpa [isBlank, hb] using hl)]
      · rfl

private theorem leadingBlanks_append_right (hl : isBlank l = false) (g : Text) :
    leadingBlanks (l ++ g) = leadingBlanks l := by
  induction l with
  | nil => cases hl
  | cons c l ih =>
    rw [leadingBlanks, leadingBlanks, List.cons_append, List.takeWhile_cons, List.takeWhile_cons]
    split
    · rename_i hc
      exact congrArg (c :: ·) (ih (by simpa [isBlank, hc] using hl))
    · rfl

theorem isBlank_trimEnd (l : Text) : isBlank (trimEnd l) = isBlank l := by
  obtain ⟨g, hg, hsplit⟩ := exists_trimEnd_append l
  conv_rhs => rw [hsplit, isBlank_append, hg, Bool.and_true]

private theorem narrow_trimEnd (hm : isBlank m = true) (hl : isBlank l = false) :
    narrow m (trimEnd l) = narrow m l := by
  obtain ⟨g, -, hsplit⟩ := exists_trimEnd_append l
  conv_rhs => rw [hsplit, narrow_append_right hm (by rw [isBlank_trimEnd, hl])]

private theorem foldl_narrow_map_trimEnd (hm : isBlank m = true)
    (hls : ∀ l ∈ ls, isBlank l = false) :
    (ls.map trimEnd).foldl narrow m = ls.foldl narrow m := by
  induction ls generalizing m with
  | nil => rfl
  | cons l ls ih =>
    rw [List.map_cons, List.foldl_cons, List.foldl_cons, narrow_trimEnd hm (hls l (by simp))]
    exact ih (isBlank_of_isPrefix (narrow_isPrefix m l) hm)
      fun k hk => hls k (List.mem_cons_of_mem l hk)

private theorem margin_map_trimEnd (hls : ∀ l ∈ ls, isBlank l = false) :
    margin (ls.map trimEnd) = margin ls := by
  cases ls with
  | nil => rfl
  | cons l ls =>
    have hl := hls l (by simp)
    obtain ⟨g, -, hsplit⟩ := exists_trimEnd_append l
    have hlead : leadingBlanks (trimEnd l) = leadingBlanks l := by
      conv_rhs => rw [hsplit, leadingBlanks_append_right (by rw [isBlank_trimEnd, hl])]
    rw [List.map_cons, margin_cons_of_not_blank (by rw [isBlank_trimEnd, hl]),
      margin_cons_of_not_blank hl, hlead]
    exact foldl_narrow_map_trimEnd (isBlank_leadingBlanks l)
      fun k hk => hls k (List.mem_cons_of_mem l hk)

private theorem foldl_narrow_filter
    (h : ∀ l ∈ ls, isBlank l = true → ∀ k, k <+: m → narrow k l = k) :
    ls.foldl narrow m = (ls.filter fun line => !isBlank line).foldl narrow m := by
  induction ls generalizing m with
  | nil => rfl
  | cons l ls ih =>
    have hrest : ∀ k, k <+: m → ls.foldl narrow k =
        (ls.filter fun line => !isBlank line).foldl narrow k := by
      intro k hk
      exact ih fun l hl hblank j hj => h l (List.mem_cons_of_mem _ hl) hblank j (hj.trans hk)
    cases hl : isBlank l with
    | true =>
      rw [List.foldl_cons, h l (by simp) hl m List.prefix_rfl, hrest m List.prefix_rfl,
        List.filter_cons_of_neg (by simp [hl])]
    | false =>
      rw [List.foldl_cons, hrest _ (narrow_isPrefix m l), List.filter_cons_of_pos (by simp [hl]),
        List.foldl_cons]

private theorem marginKept_of_narrow
    (h : ∀ l ∈ ls, isBlank l = true → ∀ k ∈ ls, ∀ m, m <+: leadingBlanks k → narrow m l = m) :
    MarginKept ls := by
  unfold MarginKept
  induction ls with
  | nil => rfl
  | cons l ls ih =>
    cases hl : isBlank l with
    | true =>
      rw [margin, if_pos hl, List.filter_cons_of_neg (by simp [hl])]
      exact ih fun j hj hblank k hk =>
        h j (List.mem_cons_of_mem _ hj) hblank k (List.mem_cons_of_mem _ hk)
    | false =>
      rw [List.filter_cons_of_pos (by simp [hl]), margin_cons_of_not_blank hl,
        margin_cons_of_not_blank hl]
      exact foldl_narrow_filter fun j hj hblank =>
        h j (List.mem_cons_of_mem _ hj) hblank l (by simp)

private theorem marginKept_of_empty (h : ∀ l ∈ ls, isBlank l = true → l = []) : MarginKept ls := by
  refine marginKept_of_narrow fun l hl hblank k _ m _ => ?_
  rw [h l hl hblank]
  cases m <;> rfl

private theorem narrow_of_spaces (hm : Over (· = ' ') m) (hl : Over (· = ' ') l) :
    narrow m l = m := by
  induction m generalizing l with
  | nil => cases l <;> rfl
  | cons b m ih =>
    cases l with
    | nil => rfl
    | cons c l =>
      rw [over_cons] at hm hl
      rw [narrow, if_pos (hm.1.trans hl.1.symm), ih hm.2 hl.2]

private theorem marginKept_of_spaces
    (h : ∀ l ∈ ls, Over (fun c => Character.isBlank c = true → c = ' ') l) :
    MarginKept ls := by
  refine marginKept_of_narrow fun l hl hblank k hk m hm => narrow_of_spaces ?_ ?_
  · intro c hc
    have hlead := hm.subset hc
    exact h k hk c ((List.takeWhile_prefix _).subset hlead)
      (List.all_eq_true.mp (isBlank_leadingBlanks k) c hlead)
  · exact fun c hc => h l hl c hc (List.all_eq_true.mp hblank c hc)

end Margin

section Reindent

variable {indentation l s : Text} {ls : List Text}

private theorem indentLine_of_blank (hind : isBlank indentation = true) (m : Text)
    (hl : isBlank l = true) :
    indentLine indentation m l = [] := by
  rw [indentLine, dropMargin, if_pos hl, List.append_nil, trimEnd_of_blank hind]

private theorem indentLine_append {m x : Text} (hx : isBlank x = false) :
    indentLine indentation m (m ++ x) = indentation ++ trimEnd x := by
  have hafter : after? m (m ++ x) = some x := after?_eq_some.mpr rfl
  rw [indentLine, dropMargin, if_neg (by rw [isBlank_append, hx, Bool.and_false]; decide), hafter]
  exact trimEnd_append_of_not_blank indentation hx

private theorem exists_indentLine_eq (hl : l ∈ ls) (hblank : isBlank l = false) :
    ∃ x, l = margin ls ++ x ∧ isBlank x = false ∧
      indentLine indentation (margin ls) l = indentation ++ trimEnd x := by
  obtain ⟨hmargin, hlines⟩ := margin_spec ls
  obtain ⟨x, rfl⟩ := hlines l hl hblank
  have hx : isBlank x = false := by
    rwa [isBlank_append, hmargin, Bool.true_and] at hblank
  exact ⟨x, rfl, hx, indentLine_append hx⟩

private theorem isBlank_indentLine (hind : isBlank indentation = true) (hl : l ∈ ls) :
    isBlank (indentLine indentation (margin ls) l) = isBlank l := by
  cases hblank : isBlank l with
  | true =>
    rw [indentLine_of_blank hind _ hblank]
    rfl
  | false =>
    obtain ⟨x, -, hx, hline⟩ := exists_indentLine_eq hl hblank
    rw [hline, isBlank_append, isBlank_trimEnd, hx, Bool.and_false]

private theorem exists_tails {ns : List Text} (hns : ∀ l ∈ ns, l ∈ ls ∧ isBlank l = false) :
    ∃ tails : List Text, ns = tails.map (margin ls ++ ·) ∧ (∀ x ∈ tails, isBlank x = false) ∧
      ns.map (indentLine indentation (margin ls)) = (tails.map trimEnd).map (indentation ++ ·) := by
  induction ns with
  | nil => exact ⟨[], rfl, by simp, rfl⟩
  | cons l ns ih =>
    obtain ⟨tails, hmargin, hsolid, hindented⟩ := ih fun k hk => hns k (List.mem_cons_of_mem l hk)
    obtain ⟨hl, hblank⟩ := hns l (by simp)
    obtain ⟨x, hlx, hx, hline⟩ := @exists_indentLine_eq indentation l ls hl hblank
    refine ⟨x :: tails, ?_, ?_, ?_⟩
    · rw [List.map_cons, ← hlx, ← hmargin]
    · exact List.forall_mem_cons.mpr ⟨hx, hsolid⟩
    · rw [List.map_cons, hline, hindented, List.map_cons, List.map_cons]

private theorem margin_map_indentLine (hind : isBlank indentation = true)
    (htext : ∃ l ∈ ls, isBlank l = false) :
    ∃ rest, margin (ls.filter fun line => !isBlank line) = margin ls ++ rest ∧
      margin (ls.map (indentLine indentation (margin ls))) = indentation ++ rest := by
  have hkept : MarginKept (ls.map (indentLine indentation (margin ls))) := by
    refine marginKept_of_empty fun k hk hblank => ?_
    obtain ⟨l, hl, rfl⟩ := List.mem_map.mp hk
    rw [isBlank_indentLine hind hl] at hblank
    exact indentLine_of_blank hind _ hblank
  have hfilter : (ls.map (indentLine indentation (margin ls))).filter (fun line => !isBlank line) =
      (ls.filter fun line => !isBlank line).map (indentLine indentation (margin ls)) := by
    rw [List.filter_map]
    refine congrArg _ (List.filter_congr fun l hl => ?_)
    rw [Function.comp_apply, isBlank_indentLine hind hl]
  obtain ⟨tails, hmargin, hsolid, hindented⟩ :=
    @exists_tails indentation ls (ls.filter fun line => !isBlank line) (by simp)
  have hne : tails ≠ [] := by
    rintro rfl
    obtain ⟨l, hl, hblank⟩ := htext
    have hmem : l ∈ ls.filter fun line => !isBlank line := List.mem_filter.mpr ⟨hl, by simp [hblank]⟩
    rw [hmargin] at hmem
    cases hmem
  have htrimmed : ∀ x ∈ tails.map trimEnd, isBlank x = false := by
    intro x hx
    obtain ⟨y, hy, rfl⟩ := List.mem_map.mp hx
    rw [isBlank_trimEnd, hsolid y hy]
  refine ⟨margin tails, ?_, ?_⟩
  · rw [hmargin, margin_map_append (margin_spec ls).1 hne hsolid]
  · rw [hkept, hfilter, hindented, margin_map_append hind (by simpa using hne) htrimmed,
      margin_map_trimEnd hsolid]

private theorem map_indentLine_eq_self (hind : isBlank indentation = true)
    (hls : ∀ l ∈ ls, Written l)
    (hmargin : (∃ l ∈ ls, isBlank l = false) → margin ls = indentation) :
    ls.map (indentLine indentation (margin ls)) = ls := by
  have hsame : ∀ l ∈ ls, indentLine indentation (margin ls) l = l := by
    intro l hl
    cases hblank : isBlank l with
    | true => rw [indentLine_of_blank hind _ hblank, (hls l hl).eq_nil_of_blank hblank]
    | false =>
      obtain ⟨x, hlx, hx, hline⟩ := @exists_indentLine_eq indentation l ls hl hblank
      rw [hmargin ⟨l, hl, hblank⟩] at hlx
      rw [hline, ← trimEnd_append_of_not_blank indentation hx, ← hlx, trimEnd_eq_self (hls l hl).last]
  rw [List.map_congr_left hsame, List.map_id']

private theorem marginKept_of_written (hls : ∀ l ∈ ls, Written l) : MarginKept ls :=
  marginKept_of_empty fun l hl => (hls l hl).eq_nil_of_blank

theorem written_lines_closeLines (hls : ∀ l ∈ ls, Written l) :
    ∀ l ∈ lines (closeLines ls), Written l := by
  intro l hl
  rcases mem_of_mem_lines_closeLines hls hl with hl | rfl
  · exact hls l hl
  · exact ⟨by simp, by simp⟩

private theorem margin_lines_closeLines (hls : ∀ l ∈ ls, Written l) :
    margin (lines (closeLines ls)) = margin ls := by
  obtain ⟨j, k, hjk⟩ := exists_lines_closeLines hls
  have hempty : ∀ n, (List.replicate n ([] : Text)).filter (fun line => !isBlank line) = [] := by
    intro n
    exact List.filter_eq_nil_iff.mpr fun l hl => by rw [List.eq_of_mem_replicate hl]; decide
  have hfilter := congrArg (List.filter fun line => !isBlank line) hjk
  rw [List.filter_append, List.filter_append, hempty, hempty, List.append_nil, List.append_nil]
    at hfilter
  rw [marginKept_of_written (written_lines_closeLines hls), hfilter, ← marginKept_of_written hls]

private theorem reindent_closeLines (hind : isBlank indentation = true) (hls : ∀ l ∈ ls, Written l)
    (htab : '\t' ∈ indentation ∨ '\t' ∉ closeLines ls) :
    reindent indentation (closeLines ls) =
      closeLines (ls.map (indentLine indentation (margin ls))) := by
  have hspaced : spacedFor indentation (closeLines ls) = closeLines ls := by
    rw [spacedFor]
    split
    · rfl
    · exact expandTabs_of_not_mem (htab.resolve_left ‹_›)
  have hnil : ∀ n, (List.replicate n []).map (indentLine indentation (margin ls)) =
      List.replicate n [] := by
    intro n
    rw [List.map_replicate, indentLine_of_blank hind _ rfl]
  obtain ⟨j, k, hjk⟩ := exists_lines_closeLines hls
  have hmap := congrArg (List.map (indentLine indentation (margin ls))) hjk
  rw [List.map_append, List.map_append, hnil, hnil] at hmap
  rw [reindent_eq hind, hspaced, margin_lines_closeLines hls, ← closeLines_append_empty _ j, hmap,
    closeLines_append_empty]

end Reindent

section Idempotence

variable {indentation s : Text}

private theorem isBlank_of_indentation (hind : Over (fun c => c = ' ' ∨ c = '\t') indentation) :
    isBlank indentation = true := by
  refine List.all_eq_true.mpr fun c hc => ?_
  rcases hind c hc with rfl | rfl <;> decide

private theorem newline_not_mem_indentation
    (hind : Over (fun c => c = ' ' ∨ c = '\t') indentation) :
    '\n' ∉ indentation := by
  intro hmem
  exact absurd (hind _ hmem) (by decide)

private theorem tab_not_mem_reindent (htab : '\t' ∉ indentation) :
    '\t' ∉ reindent indentation s := by
  have hspaced : Over (· ≠ '\t') (expandTabs s) := over_expandTabs (fun _ _ hc => hc) (by decide)
  have hsame : reindent indentation (expandTabs s) = reindent indentation s := by
    simp only [reindent, if_neg htab, expandTabs_of_not_mem fun h => hspaced _ h rfl]
  rw [← hsame]
  have hindent : Over (· ≠ '\t') indentation := fun c hc h => htab (h ▸ hc)
  exact fun hmem => hspaced.reindent hindent (by decide) (by decide) _ hmem rfl

private theorem exists_written_reindent (hind : Over (fun c => c = ' ' ∨ c = '\t') indentation)
    (s : Text) :
    ∃ ls, (∀ l ∈ ls, Written l) ∧ reindent indentation s = closeLines ls ∧
      ls = (lines (spacedFor indentation s)).map
        (indentLine indentation (margin (lines (spacedFor indentation s)))) := by
  refine ⟨_, ?_, reindent_eq (isBlank_of_indentation hind) s, rfl⟩
  intro l hl
  obtain ⟨line, hline, rfl⟩ := List.mem_map.mp hl
  exact written_indentLine (newline_not_mem_indentation hind) (newline_not_mem_lines hline)

private theorem isBlank_spacedFor (indentation s : Text) :
    isBlank (spacedFor indentation s) = isBlank s := by
  refine isBlank_congr_words ?_
  rw [spacedFor]
  split
  · rfl
  · exact words_expandTabs s

theorem isBlank_eq_all_lines (s : Text) : isBlank s = (lines s).all isBlank := by
  have hjoined : isBlank s = isBlank (unlines (lines s)) :=
    isBlank_congr_words (by rw [words_unlines, flatMap_words_lines])
  have hunlines : ∀ ls : List Text, isBlank (unlines ls) = ls.all isBlank := by
    intro ls
    induction ls with
    | nil => rfl
    | cons l ls ih =>
      cases ls with
      | nil => exact (Bool.and_true _).symm
      | cons k ls =>
        rw [unlines_cons_cons, isBlank_append, ← List.singleton_append, isBlank_append, ih,
          List.all_cons]
        rfl
  rw [hjoined, hunlines]

private theorem exists_line_of_not_blank (hs : isBlank s = false) :
    ∃ l ∈ lines s, isBlank l = false := by
  rw [isBlank_eq_all_lines] at hs
  simpa using hs

private theorem margin_reindent (hind : Over (fun c => c = ' ' ∨ c = '\t') indentation)
    (hs : isBlank s = false) :
    ∃ rest, margin ((lines (spacedFor indentation s)).filter fun line => !isBlank line) =
        margin (lines (spacedFor indentation s)) ++ rest ∧
      margin (lines (reindent indentation s)) = indentation ++ rest := by
  obtain ⟨ls, hwritten, hreindent, hls⟩ := exists_written_reindent hind s
  obtain ⟨rest, hshared, hmargin⟩ := margin_map_indentLine (isBlank_of_indentation hind)
    (exists_line_of_not_blank (isBlank_spacedFor indentation s ▸ hs))
  refine ⟨rest, hshared, ?_⟩
  rw [hreindent, margin_lines_closeLines hwritten, hls, hmargin]

private theorem marginKept_reindent (hind : Over (fun c => c = ' ' ∨ c = '\t') indentation)
    (s : Text) :
    MarginKept (lines (spacedFor indentation (reindent indentation s))) := by
  obtain ⟨ls, hwritten, hreindent, -⟩ := exists_written_reindent hind s
  have hspaced : spacedFor indentation (reindent indentation s) = reindent indentation s := by
    rw [spacedFor]
    split
    · rfl
    · exact expandTabs_of_not_mem (tab_not_mem_reindent ‹_›)
  rw [hspaced, hreindent]
  exact marginKept_of_written (written_lines_closeLines hwritten)

private theorem reindent_reindent_of_marginKept
    (hind : Over (fun c => c = ' ' ∨ c = '\t') indentation)
    (h : MarginKept (lines (spacedFor indentation s))) :
    reindent indentation (reindent indentation s) = reindent indentation s := by
  obtain ⟨ls, hwritten, hreindent, hls⟩ := exists_written_reindent hind s
  have hblank := isBlank_of_indentation hind
  have htab : '\t' ∈ indentation ∨ '\t' ∉ closeLines ls := by
    rw [← hreindent]
    exact or_iff_not_imp_left.mpr tab_not_mem_reindent
  rw [hreindent, reindent_closeLines hblank hwritten htab, map_indentLine_eq_self hblank hwritten]
  rintro ⟨l, hl, htext⟩
  rw [hls] at hl ⊢
  obtain ⟨line, hline, rfl⟩ := List.mem_map.mp hl
  rw [isBlank_indentLine hblank hline] at htext
  obtain ⟨rest, hshared, hmargin⟩ := margin_map_indentLine hblank ⟨line, hline, htext⟩
  rw [← h, List.self_eq_append_right] at hshared
  rw [hmargin, hshared, List.append_nil]

private theorem margin_of_blank {ls : List Text} (h : ∀ l ∈ ls, isBlank l = true) :
    margin ls = [] := by
  induction ls with
  | nil => rfl
  | cons l ls ih =>
    rw [margin, if_pos (h l (by simp))]
    exact ih fun k hk => h k (List.mem_cons_of_mem l hk)

private theorem marginKept_of_blank (hs : isBlank s = true) : MarginKept (lines s) := by
  rw [isBlank_eq_all_lines, List.all_eq_true] at hs
  rw [MarginKept, margin_of_blank hs, margin_of_blank fun l hl => hs l (List.mem_filter.mp hl).1]

private theorem marginKept_of_reindent_reindent
    (hind : Over (fun c => c = ' ' ∨ c = '\t') indentation)
    (h : reindent indentation (reindent indentation s) = reindent indentation s) :
    MarginKept (lines (spacedFor indentation s)) := by
  cases hs : isBlank s with
  | true => exact marginKept_of_blank (by rw [isBlank_spacedFor, hs])
  | false =>
    have hagain : isBlank (reindent indentation s) = false := by
      rw [isBlank_congr_words (words_reindent (isBlank_of_indentation hind) s), hs]
    obtain ⟨rest, hshared, hmargin⟩ := margin_reindent hind hs
    obtain ⟨more, hkept, hsecond⟩ := margin_reindent hind hagain
    -- The second pass leaves no more than the indentation, so neither did the first.
    rw [← marginKept_reindent hind s, List.self_eq_append_right] at hkept
    rw [h, hmargin, hkept, List.append_nil, List.append_right_eq_self] at hsecond
    rw [MarginKept, hshared, hsecond, List.append_nil]

/-- Indenting a text twice is indenting it once exactly if no blank line narrows the margin; just then
the text comes to stand at the indentation.  A third pass never changes anything.  With an indentation
of spaces and no other blanks than spaces, tabs and line feeds, or where blank lines are empty, the
first pass is enough. -/
theorem reindent_idempotent_iff (hind : Over (fun c => c = ' ' ∨ c = '\t') indentation) (s : Text) :
    (reindent indentation (reindent indentation s) = reindent indentation s ↔
      MarginKept (lines (spacedFor indentation s))) ∧
    (isBlank s = false →
      (margin (lines (reindent indentation s)) = indentation ↔
        MarginKept (lines (spacedFor indentation s)))) ∧
    reindent indentation (reindent indentation (reindent indentation s)) =
      reindent indentation (reindent indentation s) ∧
    ('\t' ∉ indentation →
      Over (fun c => Character.isBlank c = true → c = ' ' ∨ c = '\t' ∨ c = '\n') s →
      reindent indentation (reindent indentation s) = reindent indentation s) ∧
    ((∀ line ∈ lines (spacedFor indentation s), isBlank line = true → line = []) →
      reindent indentation (reindent indentation s) = reindent indentation s) := by
  have honce := @reindent_reindent_of_marginKept indentation s hind
  refine ⟨⟨marginKept_of_reindent_reindent hind, honce⟩, ?_, ?_, ?_, ?_⟩
  · intro hs
    obtain ⟨rest, hshared, hmargin⟩ := margin_reindent hind hs
    rw [hmargin, List.append_right_eq_self, MarginKept, hshared, List.self_eq_append_right]
  · exact reindent_reindent_of_marginKept hind (marginKept_reindent hind s)
  · intro htab hs
    have hspaced : Over (fun c => Character.isBlank c = true → c = ' ' ∨ c = '\n') (expandTabs s) := by
      refine over_expandTabs (fun c hc hne hblank => ?_) fun _ => Or.inl rfl
      exact (hs c hc hblank).imp_right fun h => h.resolve_left hne
    rw [spacedFor, if_neg htab] at honce
    refine honce (marginKept_of_spaces fun l hl c hc hblank => ?_)
    refine (hspaced.lines l hl c hc hblank).resolve_right ?_
    rintro rfl
    exact newline_not_mem_lines hl hc
  · exact fun hempty => honce (marginKept_of_empty hempty)

/-- A blank line of a space and a tab cuts the margin of two lines that are indented with two
spaces. -/
theorem blank_line_narrows_margin :
    let indentation : Text := ['\t']
    let s : Text := "  foo\n \t\n  bar\n".toList
    Over (fun c => c = ' ' ∨ c = '\t') indentation ∧
      reindent indentation s = "\t foo\n\n\t bar\n".toList ∧
      reindent indentation (reindent indentation s) ≠ reindent indentation s ∧
      margin (lines (reindent indentation s)) ≠ indentation ∧
      reindent indentation (reindent indentation (reindent indentation s)) =
        reindent indentation (reindent indentation s) := by
  intro indentation s
  have hind : Over (fun c => c = ' ' ∨ c = '\t') indentation := by simp [indentation]
  obtain ⟨htwice, hmargin, hthird, -⟩ := reindent_idempotent_iff hind s
  have hcut : ¬ MarginKept (lines (spacedFor indentation s)) := by decide
  exact ⟨hind, by decide, fun h => hcut (htwice.mp h), fun h => hcut ((hmargin (by decide)).mp h),
    hthird⟩

end Idempotence

end DocstringFormat.Text
