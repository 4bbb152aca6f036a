import DocstringFormat.Proofs.Text.Words
import DocstringFormat.Text.Tab

/-!
Lines of a text, and what indentation does to its words.

A text is cut into lines after each line feed, so the lines concatenate to the text
(`flatten_rawLines`).  Taking off a margin, expanding tabs and indenting anew change blanks only:
`words_dedent`, `words_expandTabs` and `words_reindent`.
-/

set_option autoImplicit false

namespace DocstringFormat.Text

theorem after?_eq_some {lead s rest : Text} : after? lead s = some rest ↔ s = lead ++ rest := by
  induction lead generalizing s with
  | nil => simp [after?, eq_comm]
  | cons l lead ih =>
    cases s with
    | nil => simp [after?]
    | cons c s =>
      by_cases h : l = c
      · subst h
        simp [after?, ih]
      · have hne : ¬ c = l := fun hc => h hc.symm
        simp [after?, h, hne]

theorem before?_eq_some {tail s rest : Text} : before? tail s = some rest ↔ s = rest ++ tail := by
  simp only [before?, Option.map_eq_some_iff, after?_eq_some]
  constructor
  · rintro ⟨r, hr, rfl⟩
    have h := congrArg List.reverse hr
    simpa using h
  · rintro rfl
    exact ⟨rest.reverse, by simp, by simp⟩

theorem isPrefix_append_cons {c : Char} {p : Text} (hc : c ∉ p) (s rest : Text) :
    p <+: s ++ c :: rest ↔ p <+: s := by
  constructor
  · intro h
    rcases List.prefix_or_prefix_of_prefix h (List.prefix_append s (c :: rest)) with hs | ⟨t, rfl⟩
    · exact hs
    · cases t with
      | nil => simp
      | cons d t =>
        obtain ⟨r, hr⟩ := (List.prefix_append_right_inj s).mp h
        rw [← (List.cons.inj hr).1] at hc
        simp at hc
  · exact fun h => h.trans (List.prefix_append s _)

private theorem splitAfter_cons (p : Char → Bool) (c : Char) (rest : Text) :
    splitAfter p (c :: rest) =
      if p c then [c] :: splitAfter p rest
      else
        match splitAfter p rest with
        | [] => [[c]]
        | piece :: pieces => (c :: piece) :: pieces := rfl

private theorem flatten_splitAfter (p : Char → Bool) (s : Text) : (splitAfter p s).flatten = s := by
  induction s with
  | nil => rfl
  | cons c s ih =>
    rw [splitAfter_cons]
    by_cases hc : p c = true
    · simp [hc, ih]
    · cases hs : splitAfter p s with
      | nil =>
        rw [hs] at ih
        simp [hc, ← ih]
      | cons piece pieces =>
        rw [hs] at ih
        simp [hc, ← ih]

theorem flatten_rawLines (s : Text) : (rawLines s).flatten = s :=
  flatten_splitAfter _ s

@[simp] theorem rawLines_nil : rawLines [] = [] := rfl

theorem rawLines_append_newline {b : Text} (hb : '\n' ∉ b) (s : Text) :
    rawLines (b ++ '\n' :: s) = (b ++ ['\n']) :: rawLines s := by
  induction b with
  | nil => rfl
  | cons c b ih =>
    have hc : c ≠ '\n' := fun h => hb (by simp [h])
    have hbs : '\n' ∉ b := fun h => hb (List.mem_cons_of_mem _ h)
    have hrest := ih hbs
    simp only [rawLines] at hrest ⊢
    rw [List.cons_append, splitAfter_cons, hrest]
    simp [hc]

theorem rawLines_of_not_mem {b : Text} (hne : b ≠ []) (hb : '\n' ∉ b) : rawLines b = [b] := by
  induction b with
  | nil => exact absurd rfl hne
  | cons c b ih =>
    have hc : c ≠ '\n' := fun h => hb (by simp [h])
    have hbs : '\n' ∉ b := fun h => hb (List.mem_cons_of_mem _ h)
    by_cases hnil : b = []
    · subst hnil
      simp [rawLines, splitAfter, hc]
    · have hrest := ih hnil hbs
      simp only [rawLines] at hrest ⊢
      rw [splitAfter_cons, hrest]
      simp [hc]

theorem newline_split (s : Text) : '\n' ∉ s ∨ ∃ b t, s = b ++ '\n' :: t ∧ '\n' ∉ b := by
  induction s with
  | nil => exact Or.inl (by simp)
  | cons c s ih =>
    by_cases hc : c = '\n'
    · exact Or.inr ⟨[], s, by simp [hc], by simp⟩
    · rcases ih with hs | ⟨b, t, rfl, hb⟩
      · exact Or.inl (by simp [Ne.symm hc, hs])
      · exact Or.inr ⟨c :: b, t, rfl, by simp [Ne.symm hc, hb]⟩

theorem cut_at_newline {l x a y : Text} (hl : '\n' ∉ l) (h : l ++ '\n' :: x = a ++ '\n' :: y) :
    (a = l ∧ x = y) ∨ ∃ u, a = l ++ '\n' :: u ∧ x = u ++ '\n' :: y := by
  rcases List.append_eq_append_iff.mp h with ⟨u, rfl, hu⟩ | ⟨u, rfl, hu⟩
  · cases u with
    | nil => exact Or.inl ⟨by simp, (List.cons.inj hu).2⟩
    | cons d u =>
      obtain ⟨rfl, hx⟩ : '\n' = d ∧ x = u ++ '\n' :: y := by simpa using hu
      exact Or.inr ⟨u, rfl, hx⟩
  · cases u with
    | nil => exact Or.inl ⟨by simp, (List.cons.inj hu).2.symm⟩
    | cons d u =>
      obtain ⟨rfl, -⟩ : '\n' = d ∧ y = u ++ '\n' :: x := by simpa using hu
      simp at hl

theorem line_induction {P : Text → Prop} (last : ∀ b, '\n' ∉ b → P b)
    (line : ∀ b s, '\n' ∉ b → P s → P (b ++ '\n' :: s)) (s : Text) : P s := by
  obtain ⟨n, hn⟩ : ∃ n, s.length = n := ⟨_, rfl⟩
  induction n using Nat.strong_induction_on generalizing s with
  | _ n ih =>
    rcases newline_split s with hs | ⟨b, t, rfl, hb⟩
    · exact last s hs
    · refine line b t hb (ih t.length ?_ t rfl)
      simp only [List.length_append, List.length_cons] at hn
      omega

private theorem dropTerminator_of_not_mem {b : Text} (hb : '\n' ∉ b) : dropTerminator b = b := by
  unfold dropTerminator
  split
  · rfl
  · rename_i body hbody
    rw [before?_eq_some] at hbody
    exact absurd (by rw [hbody]; simp) hb

theorem lines_append_newline {b : Text} (hb : '\n' ∉ b) (hreturn : '\r' ∉ b) (s : Text) :
    lines (b ++ '\n' :: s) = b :: lines s := by
  have hterminator : dropTerminator (b ++ ['\n']) = b := by
    have hbody : before? ['\n'] (b ++ ['\n']) = some b := before?_eq_some.mpr rfl
    simp only [dropTerminator, hbody]
    split
    · rfl
    · rename_i shorter hshorter
      rw [before?_eq_some] at hshorter
      exact absurd (by rw [hshorter]; simp) hreturn
  rw [lines, rawLines_append_newline hb, List.map_cons, hterminator, lines]

theorem lines_of_not_mem {b : Text} (hne : b ≠ []) (hb : '\n' ∉ b) : lines b = [b] := by
  rw [lines, rawLines_of_not_mem hne hb, List.map_singleton, dropTerminator_of_not_mem hb]

theorem unlines_cons_cons (a b : Text) (ls : List Text) :
    unlines (a :: b :: ls) = a ++ '\n' :: unlines (b :: ls) := by
  simp [unlines, join]

theorem unlines_cons_append (a b : Text) (ls : List Text) :
    unlines ((a ++ b) :: ls) = a ++ unlines (b :: ls) := by
  cases ls with
  | nil => rfl
  | cons l ls => simp [unlines, join]

theorem unlines_concat (ls : List Text) (l : Text) :
    unlines (ls ++ [l]) = ls.flatMap (· ++ ['\n']) ++ l := by
  induction ls with
  | nil => rfl
  | cons m ls ih =>
    obtain ⟨k, ks, hks⟩ := List.exists_cons_of_ne_nil (l := ls ++ [l]) (by simp)
    rw [hks] at ih
    rw [List.cons_append, hks, unlines, join, ← unlines, ih]
    simp

theorem unlines_concat_of_ne_nil {ls : List Text} (hne : ls ≠ []) (l : Text) :
    unlines (ls ++ [l]) = unlines ls ++ '\n' :: l := by
  obtain ⟨init, m, rfl⟩ := (List.eq_nil_or_concat' ls).resolve_left hne
  rw [unlines_concat, unlines_concat]
  simp

theorem exists_eq_unlines {ls : List Text} (hne : ls ≠ []) {body tail : Text}
    (htail : '\n' ∉ tail) (h : unlines ls = body ++ tail) :
    ∃ init l, ls = init ++ [l ++ tail] ∧ body = unlines (init ++ [l]) := by
  obtain ⟨init, x, rfl⟩ := (List.eq_nil_or_concat' ls).resolve_left hne
  rw [unlines_concat] at h
  rcases List.append_eq_append_iff.mp h with ⟨l, hbody, hx⟩ | ⟨gap, hinit, htailEq⟩
  · exact ⟨init, l, by rw [hx], by rw [unlines_concat, hbody]⟩
  · rcases List.eq_nil_or_concat' gap with rfl | ⟨gap, c, rfl⟩
    · refine ⟨init, [], ?_, ?_⟩
      · rw [htailEq, List.nil_append, List.nil_append]
      · rw [unlines_concat, hinit]
        simp
    · -- The end would reach over the line feed before the last line.
      obtain ⟨more, m, rfl⟩ : ∃ more m, init = more ++ [m] := by
        refine (List.eq_nil_or_concat' init).resolve_left ?_
        rintro rfl
        simp at hinit
      rw [List.flatMap_append, List.flatMap_singleton, ← List.append_assoc, ← List.append_assoc]
        at hinit
      obtain rfl : '\n' = c := by simpa using (List.append_inj' hinit rfl).2
      exact absurd (by rw [htailEq]; simp) htail

theorem lines_unlines_append {ls : List Text} (hne : ls ≠ [])
    (h : ∀ l ∈ ls, '\n' ∉ l ∧ '\r' ∉ l) (s : Text) :
    lines (unlines ls ++ '\n' :: s) = ls ++ lines s := by
  induction ls with
  | nil => exact absurd rfl hne
  | cons l ls ih =>
    obtain ⟨hl, hreturn⟩ := h l (by simp)
    cases ls with
    | nil => exact lines_append_newline hl hreturn s
    | cons m ls =>
      have hrest := ih (by simp) fun k hk => h k (List.mem_cons_of_mem _ hk)
      rw [unlines_cons_cons, List.append_assoc, List.cons_append, lines_append_newline hl hreturn, hrest]
      rfl

theorem mem_lines_unlines {ls : List Text} {line : Text} (hls : ∀ l ∈ ls, '\n' ∉ l ∧ '\r' ∉ l)
    (h : line ∈ lines (unlines ls)) : line ∈ ls := by
  have hone : ∀ l ∈ ls, ∀ k ∈ lines l, k = l := by
    intro l hl k hk
    by_cases hne : l = []
    · subst hne
      cases hk
    · rw [lines_of_not_mem hne (hls l hl).1] at hk
      exact List.mem_singleton.mp hk
  rcases List.eq_nil_or_concat' ls with rfl | ⟨init, l, rfl⟩
  · cases h
  · by_cases hinit : init = []
    · subst hinit
      have hl := hone l (by simp) line h
      simp [hl]
    · have hinner : ∀ k ∈ init, '\n' ∉ k ∧ '\r' ∉ k := fun k hk => hls k (by simp [hk])
      rw [unlines_concat_of_ne_nil hinit, lines_unlines_append hinit hinner] at h
      rcases List.mem_append.mp h with h | h
      · simp [h]
      · have hl := hone l (by simp) line h
        simp [hl]

theorem newline_not_mem_lines {s l : Text} (h : l ∈ lines s) : '\n' ∉ l := by
  induction s using line_induction with
  | last b hb =>
    by_cases hne : b = []
    · subst hne
      cases h
    · rw [lines_of_not_mem hne hb, List.mem_singleton] at h
      rwa [h]
  | line b s hb ih =>
    rw [lines, rawLines_append_newline hb, List.map_cons] at h
    rcases List.mem_cons.mp h with rfl | h
    · have hbody : before? ['\n'] (b ++ ['\n']) = some b := before?_eq_some.mpr rfl
      simp only [dropTerminator, hbody]
      split
      · exact hb
      · rename_i shorter hshorter
        rw [before?_eq_some] at hshorter
        exact fun hmem => hb (by rw [hshorter]; simp [hmem])
    · exact ih h

private theorem flatMap_words_rawLines (s : Text) : (rawLines s).flatMap words = words s := by
  induction s using line_induction with
  | last b hb =>
    by_cases hne : b = []
    · subst hne
      rfl
    · rw [rawLines_of_not_mem hne hb]
      simp
  | line b s hb ih =>
    rw [rawLines_append_newline hb, List.flatMap_cons, ih, words_append_blank b (by decide),
      words_append_blank b (by decide)]
    simp

@[simp] theorem words_dropTerminator (line : Text) : words (dropTerminator line) = words line := by
  unfold dropTerminator
  split
  · rfl
  · rename_i body hbody
    rw [before?_eq_some] at hbody
    subst hbody
    rw [words_append_of_blank body (by decide)]
    split
    · rfl
    · rename_i shorter hshorter
      rw [before?_eq_some] at hshorter
      subst hshorter
      rw [words_append_of_blank shorter (by decide)]

theorem flatMap_words_lines (s : Text) : (lines s).flatMap words = words s := by
  rw [lines, List.flatMap_map]
  simp only [words_dropTerminator]
  exact flatMap_words_rawLines s

theorem narrow_isPrefix (m line : Text) : narrow m line <+: m := by
  fun_induction narrow m line with
  | case1 margin m line ih => exact List.prefix_cons_inj _ |>.mpr ih
  | case2 margin m c line h => exact List.nil_prefix
  | case3 margin line h => exact List.prefix_rfl

private theorem narrow_isPrefix_line {m line : Text} (hm : Text.isBlank m = true)
    (hline : Text.isBlank line = false) : narrow m line <+: line := by
  fun_induction narrow m line with
  | case1 margin m line ih =>
    have hm' : Character.isBlank m = true ∧ Text.isBlank margin = true := by
      simpa [Text.isBlank] using hm
    have hl : Text.isBlank line = false := by
      simpa [Text.isBlank, hm'.1] using hline
    exact List.prefix_cons_inj _ |>.mpr (ih hm'.2 hl)
  | case2 margin m c line h => exact List.nil_prefix
  | case3 margin line h =>
    cases margin with
    | nil => exact List.nil_prefix
    | cons a margin =>
      cases line with
      | nil => simp [Text.isBlank] at hline
      | cons c line => exact (h a margin c line rfl rfl).elim

theorem isBlank_of_isPrefix {s t : Text} (hst : s <+: t) (ht : Text.isBlank t = true) :
    Text.isBlank s = true := by
  simp only [Text.isBlank, List.all_eq_true] at ht ⊢
  exact fun c hc => ht c (hst.subset hc)

private theorem foldl_narrow_isPrefix (m : Text) (ls : List Text) : ls.foldl narrow m <+: m := by
  induction ls generalizing m with
  | nil => exact List.prefix_rfl
  | cons l ls ih => exact (ih (narrow m l)).trans (narrow_isPrefix m l)

private theorem foldl_narrow_isPrefix_line {m : Text} (hm : Text.isBlank m = true) {ls : List Text}
    {l : Text} (hl : l ∈ ls) (hline : Text.isBlank l = false) : ls.foldl narrow m <+: l := by
  induction ls generalizing m with
  | nil => cases hl
  | cons a ls ih =>
    have hnext : Text.isBlank (narrow m a) = true := isBlank_of_isPrefix (narrow_isPrefix m a) hm
    rcases List.mem_cons.mp hl with rfl | hl
    · exact (foldl_narrow_isPrefix (narrow m l) ls).trans (narrow_isPrefix_line hm hline)
    · exact ih hnext hl

theorem margin_spec (ls : List Text) :
    Text.isBlank (margin ls) = true ∧
      ∀ l ∈ ls, Text.isBlank l = false → margin ls <+: l := by
  induction ls with
  | nil => exact ⟨rfl, by intro l hl; cases hl⟩
  | cons a ls ih =>
    by_cases ha : Text.isBlank a = true
    · rw [margin, if_pos ha]
      refine ⟨ih.1, ?_⟩
      intro l hl hline
      rcases List.mem_cons.mp hl with rfl | hl
      · rw [ha] at hline
        cases hline
      · exact ih.2 l hl hline
    · rw [margin, if_neg ha]
      have hlead : Text.isBlank (leadingBlanks a) = true := isBlank_leadingBlanks a
      refine ⟨isBlank_of_isPrefix (foldl_narrow_isPrefix _ ls) hlead, ?_⟩
      intro l hl hline
      rcases List.mem_cons.mp hl with rfl | hl
      · exact (foldl_narrow_isPrefix _ ls).trans (List.takeWhile_prefix _)
      · exact foldl_narrow_isPrefix_line hlead hl hline

private theorem words_dropMargin {m line : Text} (hm : Text.isBlank m = true)
    (hline : Text.isBlank line = false → m <+: line) : words (dropMargin m line) = words line := by
  unfold dropMargin
  by_cases hb : Text.isBlank line = true
  · rw [if_pos hb, words_of_blank hb]
    rfl
  · obtain ⟨rest, rfl⟩ := hline (by simpa using hb)
    have hafter : after? m (m ++ rest) = some rest := after?_eq_some.mpr rfl
    rw [if_neg hb, hafter, words_blank_append hm]
    rfl

@[simp] theorem words_dedent (s : Text) : words (dedent s) = words s := by
  have hmargin := margin_spec (lines s)
  have hlines : ((lines s).map (dropMargin (margin (lines s)))).flatMap words = words s := by
    rw [List.flatMap_map, ← flatMap_words_lines s]
    exact List.flatMap_congr fun l hl => words_dropMargin hmargin.1 (hmargin.2 l hl)
  simp only [dedent]
  split
  · rw [words_append_of_blank _ (by decide), words_unlines, hlines]
  · rw [words_unlines, hlines]

theorem isBlank_replicate_space (n : Nat) : Text.isBlank (List.replicate n ' ') = true := by
  simp only [Text.isBlank, List.all_eq_true]
  intro c hc
  rw [List.eq_of_mem_replicate hc]
  decide

private theorem words_append_expandTabsFrom {tabSize : Nat} (hpos : 0 < tabSize) (column : Nat)
    (pre s : Text) : words (pre ++ expandTabsFrom tabSize column s) = words (pre ++ s) := by
  induction s generalizing column pre with
  | nil => rfl
  | cons c s ih =>
    rw [expandTabsFrom]
    split
    · rename_i htab
      subst htab
      have hspaces : List.replicate (tabSize - column % tabSize) ' ' ≠ [] := by
        have hlt : column % tabSize < tabSize := Nat.mod_lt _ hpos
        simp only [ne_eq, List.replicate_eq_nil_iff]
        omega
      have hrest := ih (column + (tabSize - column % tabSize)) []
      simp only [List.nil_append] at hrest
      rw [← List.append_assoc,
        words_append_blanks pre hspaces (isBlank_replicate_space _), hrest,
        words_append_blank pre (by decide)]
    · split
      · simpa using ih 0 (pre ++ [c])
      · simpa using ih (column + 1) (pre ++ [c])

@[simp] theorem words_expandTabs (s : Text) : words (expandTabs s) = words s :=
  words_append_expandTabsFrom (by decide) 0 [] s

private theorem expandTabsFrom_of_not_mem {tabSize : Nat} {s : Text} (h : '\t' ∉ s) (column : Nat) :
    expandTabsFrom tabSize column s = s := by
  induction s generalizing column with
  | nil => rfl
  | cons c s ih =>
    have hc : c ≠ '\t' := fun hc => h (by rw [hc]; exact List.mem_cons_self)
    have hs := ih fun hmem => h (List.mem_cons_of_mem c hmem)
    rw [expandTabsFrom, if_neg hc, hs, hs]
    split <;> rfl

theorem expandTabs_of_not_mem {s : Text} (h : '\t' ∉ s) : expandTabs s = s :=
  expandTabsFrom_of_not_mem h 0

theorem words_reindent {indentation : Text} (hind : Text.isBlank indentation = true) (s : Text) :
    words (reindent indentation s) = words s := by
  have hspaced : words (if '\t' ∈ indentation then s else expandTabs s) = words s := by
    split
    · rfl
    · exact words_expandTabs s
  simp only [reindent]
  rw [words_append_of_blank _ (by decide), words_trimEnd, words_unlines, List.flatMap_map]
  simp only [words_trimEnd, words_blank_append hind]
  rw [flatMap_words_lines, words_dedent, hspaced]

private theorem flatMap_words_dropWhile (ls : List Text) :
    (ls.dropWhile Text.isBlank).flatMap words = ls.flatMap words := by
  induction ls with
  | nil => rfl
  | cons l ls ih =>
    by_cases hl : Text.isBlank l = true
    · rw [List.dropWhile_cons_of_pos hl, ih, List.flatMap_cons, words_of_blank hl]
      rfl
    · rw [List.dropWhile_cons_of_neg hl]

@[simp] theorem words_dropLeadingBlankLines (s : Text) :
    words (dropLeadingBlankLines s) = words s := by
  have hkept := flatMap_words_dropWhile (lines s)
  rw [flatMap_words_lines] at hkept
  unfold dropLeadingBlankLines
  split
  · rw [words_unlines, flatMap_words_lines]
  · rw [words_unlines, hkept]

end DocstringFormat.Text
