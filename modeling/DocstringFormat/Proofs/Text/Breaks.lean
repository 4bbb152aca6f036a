import DocstringFormat.Proofs.Text.FirstFit

/-!
Line breaks that are read again.

A text is plain when no carriage return stands right before a line feed, so that reading its lines
loses nothing (`unlines_lines`, `lines_append`).  It is unbroken when no blank line stands inside it,
so that none of its lines but the first is blank (`isBlank_of_mem_tail_lines`).  Joined lines are
plain and unbroken by what each line is (`plain_unlines`, `unbroken_unlines`), filled ones always
(`plain_of_mem_fill`).
-/

set_option autoImplicit false

namespace DocstringFormat.Text

section Plain

/-- No carriage return stands right before a line feed. -/
def Plain (s : Text) : Prop :=
  ∀ a b : Text, s ≠ a ++ '\r' :: '\n' :: b

variable {s t : Text}

theorem Plain.of_isInfix (h : Plain t) (hst : s <:+: t) : Plain s := by
  obtain ⟨x, y, rfl⟩ := hst
  rintro a b rfl
  exact h (x ++ a) (b ++ y) (by simp)

theorem plain_of_not_mem_return (h : '\r' ∉ s) : Plain s := by
  rintro a b rfl
  simp at h

theorem plain_of_not_mem_newline (h : '\n' ∉ s) : Plain s := by
  rintro a b rfl
  simp at h

theorem Plain.append (hs : Plain s) (ht : Plain t)
    (hbreak : s.getLast? = some '\r' → t.head? ≠ some '\n') : Plain (s ++ t) := by
  intro a b hab
  rcases List.append_eq_append_iff.mp hab with ⟨u, ha, hu⟩ | ⟨u, rfl, hu⟩
  · exact ht u b hu
  · cases u with
    | nil => exact ht [] b hu.symm
    | cons c u =>
      obtain ⟨rfl, hrest⟩ : '\r' = c ∧ '\n' :: b = u ++ t := by simpa using hu
      cases u with
      | nil => exact hbreak (by simp) (by rw [← List.nil_append t, ← hrest]; rfl)
      | cons d u =>
        obtain ⟨rfl, -⟩ : '\n' = d ∧ b = u ++ t := by simpa using hrest
        exact hs a u rfl

theorem plain_concat_newline (hs : Plain s) (hlast : s.getLast? ≠ some '\r') :
    Plain (s ++ ['\n']) :=
  hs.append (plain_of_not_mem_return (by decide)) fun h => absurd h hlast

/-- Lines that end without a carriage return make up a plain text. -/
theorem plain_unlines {ls : List Text} (h : ∀ l ∈ ls, Plain (l ++ ['\n'])) : Plain (unlines ls) := by
  induction ls with
  | nil => exact plain_of_not_mem_newline (by simp [unlines, join])
  | cons l ls ih =>
    have hl := h l (by simp)
    cases ls with
    | nil => exact hl.of_isInfix (List.prefix_append l ['\n']).isInfix
    | cons m ls =>
      rw [unlines_cons_cons, ← List.singleton_append, ← List.append_assoc]
      exact hl.append (ih fun k hk => h k (List.mem_cons_of_mem l hk)) (by simp)

private theorem getLast?_ne_return (h : Plain (s ++ '\n' :: t)) : s.getLast? ≠ some '\r' := by
  intro hlast
  obtain ⟨u, rfl⟩ := List.getLast?_eq_some_iff.mp hlast
  exact h u t (by simp)

theorem lines_append_newline_eq {b : Text} (hb : '\n' ∉ b) (s : Text) :
    lines (b ++ '\n' :: s) = dropTerminator (b ++ ['\n']) :: lines s := by
  rw [lines, rawLines_append_newline hb, List.map_cons, lines]

theorem lines_append_newline_of_last {b : Text} (hb : '\n' ∉ b) (hlast : b.getLast? ≠ some '\r')
    (s : Text) : lines (b ++ '\n' :: s) = b :: lines s := by
  have hterminator : dropTerminator (b ++ ['\n']) = b := by
    have hbody : before? ['\n'] (b ++ ['\n']) = some b := before?_eq_some.mpr rfl
    simp only [dropTerminator, hbody]
    split
    · rfl
    · rename_i shorter hshorter
      rw [before?_eq_some] at hshorter
      exact absurd (by rw [hshorter]; simp) hlast
  rw [lines_append_newline_eq hb, hterminator]

theorem lines_ne_nil (hs : s ≠ []) : lines s ≠ [] := by
  intro h
  have hraw : rawLines s = [] := List.map_eq_nil_iff.mp h
  have hflat := flatten_rawLines s
  rw [hraw] at hflat
  exact hs hflat.symm

/-- The lines of a plain text make up the text, unless it ends with a line feed. -/
theorem unlines_lines (h : Plain s) (hlast : s.getLast? ≠ some '\n') : unlines (lines s) = s := by
  induction s using line_induction with
  | last b hb =>
    by_cases hne : b = []
    · subst hne
      rfl
    · rw [lines_of_not_mem hne hb]
      rfl
  | line b s hb ih =>
    have hne : s ≠ [] := by
      rintro rfl
      simp at hlast
    have hrest : s.getLast? ≠ some '\n' := by
      rwa [List.getLast?_append_of_ne_nil b (by simp), List.getLast?_cons_of_ne_nil hne] at hlast
    have hplain : Plain s := h.of_isInfix ⟨b ++ ['\n'], [], by simp⟩
    obtain ⟨l, ls, hls⟩ := List.exists_cons_of_ne_nil (lines_ne_nil hne)
    have hunlines := ih hplain hrest
    rw [lines_append_newline_of_last hb (getLast?_ne_return h), hls, unlines_cons_cons, ← hls, hunlines]

/-- The lines of a text are read before those of the text after the next line feed. -/
theorem lines_append (h : Plain (s ++ ['\n'])) (hne : s ≠ []) (hlast : s.getLast? ≠ some '\n')
    (t : Text) : lines (s ++ '\n' :: t) = lines s ++ lines t := by
  induction s using line_induction with
  | last b hb =>
    rw [lines_append_newline_of_last hb (getLast?_ne_return h), lines_of_not_mem hne hb]
    rfl
  | line b s hb ih =>
    rw [List.append_assoc, List.cons_append] at h
    have hs : s ≠ [] := by
      rintro rfl
      simp at hlast
    have hrest : s.getLast? ≠ some '\n' := by
      rwa [List.getLast?_append_of_ne_nil b (by simp), List.getLast?_cons_of_ne_nil hs] at hlast
    have hplain : Plain (s ++ ['\n']) := h.of_isInfix ⟨b ++ ['\n'], [], by simp⟩
    rw [List.append_assoc, List.cons_append,
      lines_append_newline_of_last hb (getLast?_ne_return h), ih hplain hs hrest,
      lines_append_newline_of_last hb (getLast?_ne_return h), List.cons_append]

end Plain

section Unbroken

/-- No blank line stands between two line feeds. -/
def Unbroken (s : Text) : Prop :=
  ∀ a b c : Text, s = a ++ '\n' :: (b ++ '\n' :: c) → isBlank b = false

variable {s t : Text}

theorem Unbroken.of_isInfix (h : Unbroken t) (hst : s <:+: t) : Unbroken s := by
  obtain ⟨x, y, rfl⟩ := hst
  rintro a b c rfl
  exact h (x ++ a) b (c ++ y) (by simp)

theorem Unbroken.prepend (h : Unbroken s) (ht : '\n' ∉ t) : Unbroken (t ++ s) := by
  intro a b c habc
  rcases List.append_eq_append_iff.mp habc with ⟨u, rfl, hu⟩ | ⟨u, rfl, hu⟩
  · exact h u b c hu
  · cases u with
    | nil => exact h [] b c hu.symm
    | cons d u =>
      obtain ⟨rfl, -⟩ := List.cons.inj hu
      simp at ht

theorem Unbroken.concat (h : Unbroken s) {d : Char} (hd : d ≠ '\n') : Unbroken (s ++ [d]) := by
  intro a b c habc
  rcases List.eq_nil_or_concat' c with rfl | ⟨c, e, rfl⟩
  · have hlast := congrArg List.getLast? habc
    rw [List.getLast?_concat, ← List.cons_append, ← List.append_assoc, List.getLast?_concat] at hlast
    exact absurd (Option.some.inj hlast) hd
  · rw [show a ++ '\n' :: (b ++ '\n' :: (c ++ [e])) = (a ++ '\n' :: (b ++ '\n' :: c)) ++ [e] by simp]
      at habc
    exact h a b c (List.append_inj' habc rfl).1

/-- Lines of which none but the first is blank make up an unbroken text. -/
theorem unbroken_unlines {ls : List Text} (hls : ∀ l ∈ ls, '\n' ∉ l)
    (hblank : ∀ l ∈ ls.tail, isBlank l = false) : Unbroken (unlines ls) := by
  induction ls with
  | nil =>
    intro a b c h
    simp [unlines, join] at h
  | cons l ls ih =>
    have hl := hls l (by simp)
    cases ls with
    | nil =>
      rintro a b c rfl
      simp at hl
    | cons m ls =>
      intro a b c habc
      rw [unlines_cons_cons] at habc
      rcases cut_at_newline hl habc with ⟨-, hbc⟩ | ⟨u, -, hu⟩
      · -- The line after the first break is the beginning of what stands between the two.
        have hmb : m <+: b := by
          have hm := hls m (by simp)
          cases ls with
          | nil =>
            rw [show unlines [m] = m from rfl] at hbc
            simp [hbc] at hm
          | cons k ls =>
            rw [unlines_cons_cons] at hbc
            rcases cut_at_newline hm hbc with ⟨rfl, -⟩ | ⟨u, rfl, -⟩
            · exact List.prefix_rfl
            · exact List.prefix_append m _
        have hm := hblank m (by simp)
        by_contra hb
        rw [Bool.not_eq_false] at hb
        rw [isBlank_of_isPrefix hmb hb] at hm
        cases hm
      · refine ih (fun k hk => hls k (List.mem_cons_of_mem l hk)) ?_ u b c hu
        exact fun k hk => hblank k (List.mem_of_mem_tail hk)

private theorem isBlank_of_mem_lines_after (h : Unbroken ('\n' :: s)) (hplain : Plain s)
    (hlast : ∀ c, s.getLast? = some c → Character.isBlank c = false) :
    ∀ l ∈ lines s, isBlank l = false := by
  induction s using line_induction with
  | last b hb =>
    by_cases hne : b = []
    · subst hne
      simp [lines]
    · rw [lines_of_not_mem hne hb]
      intro l hl
      obtain ⟨u, c, rfl⟩ := (List.eq_nil_or_concat' b).resolve_left hne
      rw [List.mem_singleton.mp hl, isBlank_append, Bool.and_eq_false_iff]
      exact Or.inr (by simpa [isBlank] using hlast c (by simp))
  | line b s hb ih =>
    rw [lines_append_newline_of_last hb (getLast?_ne_return hplain)]
    intro l hl
    rcases List.mem_cons.mp hl with rfl | hl
    · exact h [] l s rfl
    · refine ih (h.of_isInfix ⟨'\n' :: b, [], by simp⟩) (hplain.of_isInfix ⟨b ++ ['\n'], [], by simp⟩) ?_ l hl
      intro c hc
      apply hlast c
      rw [List.getLast?_append_of_ne_nil b (by simp), List.getLast?_cons, hc]
      rfl

/-- In an unbroken text that does not end in a blank, no line but the first is blank. -/
theorem isBlank_of_mem_tail_lines (h : Unbroken s) (hplain : Plain s)
    (hlast : ∀ c, s.getLast? = some c → Character.isBlank c = false) :
    ∀ l ∈ (lines s).tail, isBlank l = false := by
  rcases newline_split s with hs | ⟨b, t, rfl, hb⟩
  · by_cases hne : s = []
    · subst hne
      simp [lines]
    · rw [lines_of_not_mem hne hs]
      simp
  · rw [lines_append_newline_of_last hb (getLast?_ne_return hplain), List.tail_cons]
    refine isBlank_of_mem_lines_after (h.of_isInfix ⟨b, [], by simp⟩)
      (hplain.of_isInfix ⟨b ++ ['\n'], [], by simp⟩) ?_
    intro c hc
    apply hlast c
    rw [List.getLast?_append_of_ne_nil b (by simp), List.getLast?_cons, hc]
    rfl

end Unbroken

section Trimmed

structure Trimmed (s : Text) : Prop where
  ne_nil : s ≠ []
  head : ∀ c, s.head? = some c → Character.isBlank c = false
  last : ∀ c, s.getLast? = some c → Character.isBlank c = false

variable {s a b : Text}

theorem trimmed_trim (h : words s ≠ []) : Trimmed (trim s) where
  ne_nil hnil := h (by rw [← words_trim, hnil]; rfl)
  head _ hc := head?_trim hc
  last _ hc := getLast?_trimEnd hc

theorem words_ne_nil_of_head {c : Char} (hc : s.head? = some c) (hsolid : Character.isBlank c = false) :
    words s ≠ [] := by
  obtain ⟨rest, rfl⟩ := List.head?_eq_some_iff.mp hc
  obtain ⟨w, ws, hw⟩ := words_cons_solid hsolid rest
  rw [hw]
  simp

theorem Trimmed.words_ne_nil (h : Trimmed s) : words s ≠ [] := by
  obtain ⟨c, rest, rfl⟩ := List.exists_cons_of_ne_nil h.ne_nil
  exact words_ne_nil_of_head rfl (h.head c rfl)

theorem words_ne_nil_of_not_blank (h : isBlank s = false) : words s ≠ [] := by
  intro hnil
  have hflat : flatten s = [] := by
    by_contra hne
    obtain ⟨c, rest, hcons⟩ := List.exists_cons_of_ne_nil hne
    refine words_ne_nil_of_head (s := flatten s) (c := c) (by rw [hcons]; rfl) ?_ ?_
    · exact head?_trim (by rw [← flatten, hcons]; rfl)
    · rw [words_flatten, hnil]
  rw [flatten_eq_nil_iff.mp hflat] at h
  cases h

theorem isBlank_congr_words {t : Text} (h : words s = words t) : isBlank s = isBlank t := by
  have hiff : ∀ u : Text, isBlank u = true ↔ words u = [] := by
    refine fun u => ⟨words_of_blank, fun hwords => ?_⟩
    by_contra hblank
    exact words_ne_nil_of_not_blank (by simpa using hblank) hwords
  rw [Bool.eq_iff_iff, hiff, hiff, h]

theorem trim_isInfix (s : Text) : trim s <:+: s :=
  (dropEndWhile_isPrefix _ _).isInfix.trans (List.dropWhile_suffix _).isInfix

theorem trimEnd_append_of_blank (hlast : ∀ c, s.getLast? = some c → Character.isBlank c = false)
    (hb : isBlank b = true) : trimEnd (s ++ b) = s := by
  have hreverse : ∀ c ∈ b.reverse, Character.isBlank c = true := by
    rw [← isBlank_reverse] at hb
    exact List.all_eq_true.mp hb
  rw [trimEnd, dropEndWhile, List.reverse_append, List.dropWhile_append_of_pos hreverse]
  rcases List.eq_nil_or_concat' s with rfl | ⟨u, c, rfl⟩
  · rfl
  · rw [List.reverse_concat, List.dropWhile_cons_of_neg (by simp [hlast c (by simp)]),
      ← List.reverse_concat, List.reverse_reverse]

theorem trimEnd_eq_self (hlast : ∀ c, s.getLast? = some c → Character.isBlank c = false) :
    trimEnd s = s := by
  have hpad := @trimEnd_append_of_blank s [] hlast rfl
  rwa [List.append_nil] at hpad

theorem Trimmed.trim_between (h : Trimmed s) (ha : isBlank a = true) (hb : isBlank b = true) :
    trim (a ++ (s ++ b)) = s := by
  have hstart : trimStart (a ++ (s ++ b)) = s ++ b := by
    obtain ⟨c, rest, rfl⟩ := List.exists_cons_of_ne_nil h.ne_nil
    rw [trimStart, List.dropWhile_append_of_pos (List.all_eq_true.mp ha), List.cons_append,
      List.dropWhile_cons_of_neg (by simp [h.head c rfl])]
  rw [trim, hstart, trimEnd_append_of_blank h.last hb]

theorem Trimmed.last_ne (h : Trimmed s) {c : Char} (hc : Character.isBlank c = true) :
    s.getLast? ≠ some c := by
  intro hlast
  rw [h.last c hlast] at hc
  cases hc

end Trimmed

section Filled

variable {s initial subsequent line : Text} {columns : Nat}

/-- Behind an indentation without line feeds a filled line is a line of its own, not blank, and does
not end in a carriage return. -/
theorem plain_of_mem_fill (hi : '\n' ∉ initial) (hs : '\n' ∉ subsequent)
    (h : line ∈ fill s columns initial subsequent) :
    '\n' ∉ line ∧ isBlank line = false ∧ Plain (line ++ ['\n']) := by
  obtain ⟨lead, t, rfl, hlead, ht⟩ := exists_tight_of_mem_fill h
  have hnewline : '\n' ∉ lead ++ t := by
    rw [List.mem_append, not_or]
    refine ⟨?_, ht.blanks.no_break.1⟩
    rcases hlead with rfl | rfl
    · exact hi
    · exact hs
  obtain ⟨u, c, rfl⟩ := (List.eq_nil_or_concat' t).resolve_left ht.ne_nil
  have hc := ht.last c (by simp)
  refine ⟨hnewline, ?_, plain_concat_newline (plain_of_not_mem_newline hnewline) ?_⟩
  · rw [isBlank_append, isBlank_append]
    simp [isBlank, hc]
  · rw [← List.append_assoc, List.getLast?_concat]
    rintro hreturn
    rw [Option.some.inj hreturn] at hc
    exact absurd hc (by decide)

end Filled

end DocstringFormat.Text
