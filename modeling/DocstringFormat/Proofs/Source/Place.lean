import DocstringFormat.Proofs.Text.Bytes
import DocstringFormat.Proofs.Text.Lines
import DocstringFormat.Source.Scan

/-!
Places in a source, and the text between tokens.

A place is the end of a text that has been read: line feeds count rows, and the bytes after the
last one count columns.  What separates two tokens is a gap, spacing and backslashes that join
lines.
-/

set_option autoImplicit false

namespace DocstringFormat.Source

def lastRow (x : Text) : Text :=
  (x.reverse.takeWhile (· != '\n')).reverse

/-- The text up to the first line feed, the line feed included. -/
def firstRow : Text → Text
  | [] => []
  | c :: rest => if c = '\n' then [c] else c :: firstRow rest

/-- The place that some text leads to. -/
def place (x : Text) : Place :=
  ⟨x.count '\n' + 1, (lastRow x).size⟩

/-- The place where a text ends that follows `x`.  A line feed belongs to the row that it ends. -/
def stopPlace (x text : Text) : Place :=
  if text.getLast? = some '\n' then
    ⟨(place (x ++ text.dropLast)).row, (place (x ++ text.dropLast)).column + 1⟩
  else place (x ++ text)

def IsRow (y after : Text) : Prop :=
  '\n' ∉ y ∧ after = [] ∨ ∃ u, y = u ++ ['\n'] ∧ '\n' ∉ u

/-- Whether a text may stand between two tokens: spacing and backslashes that join lines. -/
def isGap : Text → Bool
  | [] => true
  | '\\' :: '\n' :: rest => isGap rest
  | '\\' :: '\r' :: '\n' :: rest => isGap rest
  | c :: rest => isSpacing c && isGap rest

section Rows

@[simp] theorem lastRow_nil : lastRow [] = [] := rfl

theorem newline_not_mem_lastRow (x : Text) : '\n' ∉ lastRow x := by
  intro h
  have hmem : '\n' ∈ x.reverse.takeWhile (· != '\n') := List.mem_reverse.mp h
  have hall := List.all_takeWhile (p := (· != '\n')) (l := x.reverse)
  have hne := List.all_eq_true.mp hall '\n' hmem
  simp at hne

theorem lastRow_isSuffix (x : Text) : lastRow x <:+ x := by
  have h := List.reverse_suffix.mpr (List.takeWhile_prefix (· != '\n') (l := x.reverse))
  rwa [List.reverse_reverse] at h

theorem lastRow_append_of_not_mem (x : Text) {y : Text} (hy : '\n' ∉ y) :
    lastRow (x ++ y) = lastRow x ++ y := by
  have hall : ∀ c ∈ y.reverse, (c != '\n') = true := by
    intro c hc
    have hmem : c ∈ y := List.mem_reverse.mp hc
    simp only [bne_iff_ne, ne_eq]
    rintro rfl
    exact hy hmem
  rw [lastRow, List.reverse_append, List.takeWhile_append_of_pos hall, List.reverse_append,
    List.reverse_reverse]
  rfl

theorem lastRow_of_not_mem {y : Text} (hy : '\n' ∉ y) : lastRow y = y := by
  have h := lastRow_append_of_not_mem [] hy
  simpa using h

theorem lastRow_append_newline (x y : Text) : lastRow (x ++ '\n' :: y) = lastRow y := by
  have hlast : lastRow (x ++ ['\n']) = [] := by
    simp [lastRow]
  induction y using List.reverseRecOn with
  | nil => simpa using hlast
  | append_singleton y c ih =>
    by_cases hc : c = '\n'
    · subst hc
      simp [lastRow]
    · have hmem : '\n' ∉ [c] := by
        simpa using fun h => hc h.symm
      have hrest := lastRow_append_of_not_mem (x ++ '\n' :: y) hmem
      rw [lastRow_append_of_not_mem y hmem, ← ih, ← hrest]
      simp

theorem exists_eq_append_lastRow {x : Text} (h : '\n' ∈ x) :
    ∃ u, x = u ++ '\n' :: lastRow x := by
  induction x using List.reverseRecOn with
  | nil => simp at h
  | append_singleton x c ih =>
    by_cases hc : c = '\n'
    · subst hc
      exact ⟨x, by rw [lastRow_append_newline]; rfl⟩
    · have hmem : '\n' ∉ [c] := by
        simpa using fun h => hc h.symm
      have hx : '\n' ∈ x := by
        rcases List.mem_append.mp h with h | h
        · exact h
        · exact absurd h hmem
      obtain ⟨u, hu⟩ := ih hx
      refine ⟨u, ?_⟩
      rw [lastRow_append_of_not_mem x hmem]
      conv_lhs => rw [hu]
      simp

theorem lastRow_append_of_mem (x : Text) {y : Text} (hy : '\n' ∈ y) :
    lastRow (x ++ y) = lastRow y := by
  obtain ⟨u, hu⟩ := exists_eq_append_lastRow hy
  have h := lastRow_append_newline (x ++ u) (lastRow y)
  rw [lastRow_of_not_mem (newline_not_mem_lastRow y)] at h
  rw [← h]
  conv_lhs => rw [hu]
  simp

theorem lastRow_eq_nil {x : Text} (h : lastRow x = []) : x = [] ∨ ∃ u, x = u ++ ['\n'] := by
  by_cases hx : '\n' ∈ x
  · obtain ⟨u, hu⟩ := exists_eq_append_lastRow hx
    rw [h] at hu
    exact Or.inr ⟨u, hu⟩
  · rw [lastRow_of_not_mem hx] at h
    exact Or.inl h

theorem lastRow_append_ne_nil (x : Text) {y : Text} (hne : y ≠ [])
    (hlast : y.getLast? ≠ some '\n') : lastRow (x ++ y) ≠ [] := by
  intro h
  rcases lastRow_eq_nil h with hnil | ⟨u, hu⟩
  · exact hne (List.append_eq_nil_iff.mp hnil).2
  · rw [← List.getLast?_append_of_ne_nil x hne, hu] at hlast
    simp at hlast

theorem firstRow_append_of_not_mem {y : Text} (hy : '\n' ∉ y) (z : Text) :
    firstRow (y ++ z) = y ++ firstRow z := by
  induction y with
  | nil => rfl
  | cons c y ih =>
    have hc : c ≠ '\n' := fun h => hy (by simp [h])
    have hrest : '\n' ∉ y := fun h => hy (List.mem_cons_of_mem _ h)
    rw [List.cons_append, firstRow, if_neg hc, ih hrest, List.cons_append]

theorem firstRow_sublist (s : Text) : List.Sublist (firstRow s) s := by
  induction s with
  | nil => exact List.nil_sublist []
  | cons c s ih =>
    rw [firstRow]
    split
    · exact (List.nil_sublist s).cons_cons c
    · exact ih.cons_cons c

theorem firstRow_subset (s : Text) : firstRow s ⊆ s :=
  (firstRow_sublist s).subset

theorem firstRow_of_isRow {y after : Text} (h : IsRow y after) : firstRow (y ++ after) = y := by
  rcases h with ⟨hy, rfl⟩ | ⟨u, rfl, hu⟩
  · rw [firstRow_append_of_not_mem hy]
    simp [firstRow]
  · rw [List.append_assoc, firstRow_append_of_not_mem hu]
    rfl

end Rows

section Places

@[simp] theorem place_row (x : Text) : (place x).row = x.count '\n' + 1 := rfl

@[simp] theorem place_column (x : Text) : (place x).column = (lastRow x).size := rfl

theorem place_append_of_not_mem (x : Text) {y : Text} (hy : '\n' ∉ y) :
    place (x ++ y) = ⟨(place x).row, (place x).column + y.size⟩ := by
  simp [place, List.count_append, List.count_eq_zero_of_not_mem hy, lastRow_append_of_not_mem x hy]

theorem stopPlace_of_not_mem (x : Text) {y : Text} (hy : '\n' ∉ y) :
    stopPlace x y = place (x ++ y) := by
  rw [stopPlace, if_neg]
  intro h
  exact hy (List.mem_of_getLast? h)

theorem stopPlace_newline (x u : Text) :
    stopPlace x (u ++ ['\n']) = ⟨(place (x ++ u)).row, (place (x ++ u)).column + 1⟩ := by
  simp [stopPlace]

theorem eq_nil_of_place_eq {x y : Text} (h : place (x ++ y) = place x) : y = [] := by
  have hrow : (x ++ y).count '\n' + 1 = x.count '\n' + 1 := congrArg Place.row h
  have hcolumn : (lastRow (x ++ y)).size = (lastRow x).size := congrArg Place.column h
  have hy : '\n' ∉ y := by
    apply List.count_eq_zero.mp
    rw [List.count_append] at hrow
    omega
  rw [lastRow_append_of_not_mem x hy, Text.size_append] at hcolumn
  apply Text.eq_nil_of_size
  omega

end Places

section Gaps

theorem isSpacing_ne_newline {c : Char} (h : isSpacing c = true) : c ≠ '\n' := by
  rintro rfl
  exact absurd h (by decide)

theorem isBlank_of_isSpacing {c : Char} (h : isSpacing c = true) : Character.isBlank c = true := by
  simp only [isSpacing, Bool.or_eq_true, beq_iff_eq] at h
  rcases h with (rfl | rfl) | rfl <;> decide

theorem isSpacing_ne_backslash {c : Char} (h : isSpacing c = true) : c ≠ '\\' := by
  rintro rfl
  exact absurd h (by decide)

theorem isGap_of_spacing {g : Text} (h : ∀ c ∈ g, isSpacing c = true) : isGap g = true := by
  induction g with
  | nil => rfl
  | cons c g ih =>
    have hc := h c (by simp)
    have hne := isSpacing_ne_backslash hc
    have hrest := ih fun d hd => h d (List.mem_cons_of_mem _ hd)
    unfold isGap
    split
    · rfl
    · simp_all
    · simp_all
    · simp_all

theorem isGap_append {g h : Text} (hg : isGap g = true) (hh : isGap h = true) :
    isGap (g ++ h) = true := by
  fun_induction isGap g with
  | case1 => exact hh
  | case2 rest ih => exact ih hg
  | case3 rest ih => exact ih hg
  | case4 c rest hn hr ih =>
    rw [Bool.and_eq_true] at hg
    have hne := isSpacing_ne_backslash hg.1
    have hrest := ih hg.2
    rw [List.cons_append]
    unfold isGap
    split
    · rfl
    · simp_all
    · simp_all
    · simp_all

theorem getLast?_gap {g : Text} {c : Char} (hg : isGap g = true) (hc : g.getLast? = some c) :
    isSpacing c = true ∨ c = '\n' := by
  fun_induction isGap g with
  | case1 => simp at hc
  | case2 rest ih =>
    rw [List.getLast?_cons_cons] at hc
    cases rest with
    | nil =>
      right
      simpa using hc.symm
    | cons d rest => exact ih hg (by simpa using hc)
  | case3 rest ih =>
    rw [List.getLast?_cons_cons, List.getLast?_cons_cons] at hc
    cases rest with
    | nil =>
      right
      simpa using hc.symm
    | cons d rest => exact ih hg (by simpa using hc)
  | case4 d rest hn hr ih =>
    rw [Bool.and_eq_true] at hg
    cases rest with
    | nil =>
      left
      have hdc : d = c := by simpa using hc
      exact hdc ▸ hg.1
    | cons e rest => exact ih hg.2 (by simpa using hc)

theorem spacing_of_gap {g : Text} (hg : isGap g = true) (hn : '\n' ∉ g) :
    ∀ c ∈ g, isSpacing c = true := by
  fun_induction isGap g with
  | case1 => simp
  | case2 rest ih => simp at hn
  | case3 rest ih => simp at hn
  | case4 d rest h1 h2 ih =>
    rw [Bool.and_eq_true] at hg
    have hrest := ih hg.2 fun h => hn (List.mem_cons_of_mem _ h)
    intro c hc
    rcases List.mem_cons.mp hc with rfl | hc
    · exact hg.1
    · exact hrest c hc

end Gaps

end DocstringFormat.Source
