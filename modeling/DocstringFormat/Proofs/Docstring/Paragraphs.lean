import DocstringFormat.Proofs.Docstring.Characters
import DocstringFormat.Proofs.Text.Breaks
import Mathlib.Data.List.Chain

/-!
Filling keeps the paragraphs of a text.

A paragraph is a maximal run of lines that are not blank, and counts by its words (`paragraphWords`).
A text whose blank lines are empty has the pieces between its paragraph breaks for paragraphs
(`runs_lines`), and the filled lines of the pieces have the same runs (`runs_fillParagraphs`).  Only an
indentation that holds a line feed puts a blank line in front of each filled line, and then parts the
lines of one paragraph (`paragraphs_survive_filling_iff`).
-/

set_option autoImplicit false

namespace DocstringFormat.Docstring

open Text (words lines unlines Tight)

/-- A run of lines with its words, unless it has none. -/
def closeRun (run : List Text) : List (List Text) :=
  if run = [] then [] else [run]

/-- The words of the maximal runs of lines that are not blank.  The first line goes on with a run of
which some words were read before. -/
def runs : List Text → List Text → List (List Text)
  | run, [] => closeRun run
  | run, line :: rest =>
    if line.isBlank then closeRun run ++ runs [] rest else runs (run ++ words line) rest

/-- The words of each paragraph of a text. -/
def paragraphWords (s : Text) : List (List Text) :=
  runs [] (lines s)

/-- Every blank line is empty, a last line without a line feed excepted. -/
def BlankLinesEmpty (s : Text) : Prop :=
  ∀ line ∈ s.rawLines, line.isBlank = true → Text.endsWithNewline line = true → line = ['\n']

instance (s : Text) : Decidable (BlankLinesEmpty s) :=
  inferInstanceAs (Decidable (∀ line ∈ s.rawLines, _))

section Runs

variable {run : List Text} {ls ms : List Text} {l : Text}

@[simp] theorem closeRun_nil : closeRun [] = [] := rfl

private theorem closeRun_of_ne_nil (h : run ≠ []) : closeRun run = [run] :=
  if_neg h

private theorem runs_cons_blank (hl : l.isBlank = true) (run ls : List Text) :
    runs run (l :: ls) = closeRun run ++ runs [] ls := by
  rw [runs, if_pos hl]

private theorem runs_cons_text (hl : l.isBlank = false) (run ls : List Text) :
    runs run (l :: ls) = runs (run ++ words l) ls := by
  rw [runs, if_neg (by simp [hl])]

private theorem runs_cons_congr {k : Text} (h : words l = words k) (run ls : List Text) :
    runs run (l :: ls) = runs run (k :: ls) := by
  rw [runs, runs, h, Text.isBlank_congr_words h]

private theorem runs_append_text (hls : ∀ l ∈ ls, l.isBlank = false) (run ms : List Text) :
    runs run (ls ++ ms) = runs (run ++ ls.flatMap words) ms := by
  induction ls generalizing run with
  | nil => simp
  | cons l ls ih =>
    rw [List.cons_append, runs_cons_text (hls l (by simp)),
      ih fun k hk => hls k (List.mem_cons_of_mem l hk), List.flatMap_cons, List.append_assoc]

private theorem runs_append_empty (run ls ms : List Text) :
    runs run (ls ++ [] :: ms) = runs run ls ++ runs [] ms := by
  induction ls generalizing run with
  | nil => exact runs_cons_blank rfl run ms
  | cons l ls ih =>
    cases hl : l.isBlank with
    | true => rw [List.cons_append, runs_cons_blank hl, ih, runs_cons_blank hl, List.append_assoc]
    | false => rw [List.cons_append, runs_cons_text hl, ih, runs_cons_text hl]

private theorem runs_dropLastEmpty (run ls : List Text) :
    runs run (dropLastEmpty ls) = runs run ls := by
  unfold dropLastEmpty
  split
  · rename_i hlast
    have hsplit : ls.dropLast ++ [[]] = ls := List.dropLast_append_getLast? [] hlast
    conv_rhs => rw [← hsplit, runs_append_empty]
    exact (List.append_nil _).symm
  · rfl

private theorem exists_runs_eq_cons (run ls : List Text) (hrun : run ≠ []) :
    ∃ more rest, runs run ls = (run ++ more) :: rest := by
  induction ls generalizing run with
  | nil => exact ⟨[], [], by rw [runs, closeRun_of_ne_nil hrun, List.append_nil]⟩
  | cons l ls ih =>
    cases hl : l.isBlank with
    | true => exact ⟨[], runs [] ls, by rw [runs_cons_blank hl, closeRun_of_ne_nil hrun]; simp⟩
    | false =>
      obtain ⟨more, rest, hruns⟩ := ih (run ++ words l) (by simp [hrun])
      exact ⟨words l ++ more, rest, by rw [runs_cons_text hl, hruns, List.append_assoc]⟩

private theorem map_words_eq_runs_iff (ls : List Text) :
    (ls.filter fun line => !line.isBlank).map words = runs [] ls ↔
      ls.IsChain fun a b => a.isBlank = true ∨ b.isBlank = true := by
  induction ls with
  | nil => simp [runs]
  | cons a ls ih =>
    rw [List.isChain_cons, ← ih]
    cases ha : a.isBlank with
    | true =>
      rw [List.filter_cons_of_neg (by simp [ha]), runs_cons_blank ha, closeRun_nil, List.nil_append]
      exact ⟨fun h => ⟨fun _ _ => Or.inl rfl, h⟩, And.right⟩
    | false =>
      have hwords := Text.words_ne_nil_of_not_blank ha
      rw [List.filter_cons_of_pos (by simp [ha]), List.map_cons, runs_cons_text ha, List.nil_append]
      cases ls with
      | nil => simp [runs, closeRun_of_ne_nil hwords]
      | cons b ls =>
        cases hb : b.isBlank with
        | true =>
          rw [runs_cons_blank hb, runs_cons_blank hb, closeRun_of_ne_nil hwords, closeRun_nil]
          simp [hb]
        | false =>
          -- The words of both lines open one run, so the first line is none of its own.
          obtain ⟨more, rest, hruns⟩ := exists_runs_eq_cons (words a ++ words b) ls (by simp [hwords])
          rw [runs_cons_text hb, hruns]
          refine iff_of_false (fun h => ?_) fun h => by simpa [hb] using h.1 b
          have hfirst := (List.cons.inj h).1
          rw [List.append_assoc, List.self_eq_append_right, List.append_eq_nil_iff] at hfirst
          exact Text.words_ne_nil_of_not_blank hb hfirst.1

end Runs

section Pieces

variable {b s p : Text} {ps : List Text}

private theorem paragraphs_cons {c : Char} (h : c = '\n' → s.head? ≠ some '\n')
    (hp : paragraphs s = p :: ps) : paragraphs (c :: s) = (c :: p) :: ps := by
  unfold paragraphs
  split
  · rename_i hnil
    cases hnil
  · rename_i rest hcons
    obtain ⟨rfl, rfl⟩ := List.cons.inj hcons
    exact absurd rfl (h rfl)
  · rename_i d t _ hcons
    obtain ⟨rfl, rfl⟩ := List.cons.inj hcons
    rw [hp]

private theorem paragraphs_append (hb : '\n' ∉ b) (hp : paragraphs s = p :: ps) :
    paragraphs (b ++ s) = (b ++ p) :: ps := by
  induction b with
  | nil => exact hp
  | cons c b ih =>
    rw [List.mem_cons, not_or] at hb
    exact paragraphs_cons (fun hc => absurd hc.symm hb.1) (ih hb.2)

private theorem paragraphs_of_not_mem (hb : '\n' ∉ b) : paragraphs b = [b] := by
  simpa using paragraphs_append hb (s := []) rfl

private theorem paragraphs_of_not_includes (h : Text.includes ['\n', '\n'] s = false) :
    paragraphs s = [s] := by
  have hnot : ¬ ['\n', '\n'] <:+: s := by simp [← includes_iff, h]
  clear h
  induction s with
  | nil => rfl
  | cons c s ih =>
    refine paragraphs_cons ?_ (ih fun hs => hnot (hs.trans (List.suffix_cons c s).isInfix))
    rintro rfl hs
    obtain ⟨rest, rfl⟩ := List.head?_eq_some_iff.mp hs
    exact hnot ⟨[], rest, rfl⟩

theorem BlankLinesEmpty.of_append (h : BlankLinesEmpty (b ++ '\n' :: s)) (hb : '\n' ∉ b) :
    (b.isBlank = true → b = []) ∧ BlankLinesEmpty s := by
  rw [BlankLinesEmpty, Text.rawLines_append_newline hb, List.forall_mem_cons] at h
  refine ⟨fun hblank => ?_, h.2⟩
  have hline := h.1 (by rw [Text.isBlank_append, hblank]; rfl)
    (List.isSuffixOf_iff_suffix.mpr (List.suffix_append b ['\n']))
  simpa using hline

private theorem runs_lines_of_not_mem (hs : '\n' ∉ s) (run : List Text) :
    runs run (lines s) = closeRun (run ++ words s) := by
  by_cases hne : s = []
  · subst hne
    rw [Text.words_nil, List.append_nil]
    rfl
  · rw [Text.lines_of_not_mem hne hs]
    cases hblank : s.isBlank with
    | true =>
      rw [runs_cons_blank hblank, Text.words_of_blank hblank, List.append_nil]
      exact List.append_nil _
    | false => exact runs_cons_text hblank run []

private theorem runs_lines (hreturn : '\r' ∉ s) (hempty : BlankLinesEmpty s) (run : List Text)
    (hrun : run = [] ∨ s.head? ≠ some '\n') :
    ∃ p ps, paragraphs s = p :: ps ∧
      runs run (lines s) = closeRun (run ++ words p) ++ ps.flatMap fun q => closeRun (words q) := by
  -- By induction on the length: a paragraph break takes off two line feeds at once.
  induction hlength : s.length using Nat.strongRecOn generalizing s run with
  | ind n ih =>
    subst hlength
    rcases Text.newline_split s with hs | ⟨b, t, rfl, hb⟩
    · exact ⟨s, [], paragraphs_of_not_mem hs, by simpa using runs_lines_of_not_mem hs run⟩
    · obtain ⟨hblank, hrest⟩ := hempty.of_append hb
      have hreturns : '\r' ∉ b ∧ '\r' ∉ t := by simpa using hreturn
      have hfirst : ∀ ls : List Text, runs run (b :: ls) = runs (run ++ words b) ls := by
        intro ls
        cases h : b.isBlank with
        | false => exact runs_cons_text h run ls
        | true =>
          -- A blank first line is empty, so no run goes on with it.
          obtain rfl := hblank h
          obtain rfl := hrun.resolve_right (by simp)
          exact runs_cons_blank rfl [] ls
      rw [Text.lines_append_newline hb hreturns.1, hfirst]
      by_cases hbreak : t.head? = some '\n'
      · obtain ⟨u, rfl⟩ := List.head?_eq_some_iff.mp hbreak
        have hu := (BlankLinesEmpty.of_append (b := []) hrest (by simp)).2
        have hureturn : '\r' ∉ u := by simpa using hreturns.2
        obtain ⟨q, qs, hq, hruns⟩ := ih u.length (by simp; omega) hureturn hu [] (Or.inl rfl) rfl
        have hlines : lines ('\n' :: u) = [] :: lines u :=
          Text.lines_append_newline (b := []) (by simp) (by simp) u
        have hpieces : paragraphs (b ++ '\n' :: '\n' :: u) = b :: paragraphs u := by
          simpa using paragraphs_append hb (s := '\n' :: '\n' :: u) rfl
        refine ⟨b, q :: qs, by rw [hpieces, hq], ?_⟩
        rw [hlines, runs_cons_blank rfl, hruns, List.flatMap_cons]
        rfl
      · obtain ⟨p, ps, hp, hruns⟩ := ih t.length (by simp; omega) hreturns.2 hrest (run ++ words b)
          (Or.inr hbreak) rfl
        have hpieces : paragraphs (b ++ '\n' :: t) = (b ++ '\n' :: p) :: ps :=
          paragraphs_append hb (paragraphs_cons (fun _ => hbreak) hp)
        refine ⟨_, ps, hpieces, ?_⟩
        rw [hruns, Text.words_append_blank b (by decide), List.append_assoc]

private theorem paragraphWords_eq (hreturn : '\r' ∉ s) (hempty : BlankLinesEmpty s) :
    paragraphWords s = (paragraphs s).flatMap fun p => closeRun (words p) := by
  obtain ⟨p, ps, hp, hruns⟩ := runs_lines hreturn hempty [] (Or.inl rfl)
  rw [paragraphWords, hruns, hp, List.flatMap_cons, List.nil_append]

end Pieces

section Filled

variable {indent s : Text} {columns : Nat}

theorem exists_tight_of_mem_fillParagraph {p l : Text} (h : l ∈ fillParagraph indent columns p) :
    ∃ t, l = indent ++ t ∧ Tight t := by
  obtain ⟨lead, t, rfl, hlead, ht⟩ := Text.exists_tight_of_mem_fill h
  exact ⟨t, by rw [hlead.elim id id], ht⟩

theorem isBlank_append_tight {t : Text} (ht : Tight t) (lead : Text) :
    Text.isBlank (lead ++ t) = false := by
  obtain ⟨c, u, rfl⟩ := List.exists_cons_of_ne_nil ht.ne_nil
  rw [Text.isBlank_append]
  simp [Text.isBlank, ht.head c rfl]

private theorem isBlank_of_mem_fillParagraph {p l : Text} (h : l ∈ fillParagraph indent columns p) :
    l.isBlank = false := by
  obtain ⟨t, rfl, ht⟩ := exists_tight_of_mem_fillParagraph h
  exact isBlank_append_tight ht indent

private theorem eq_nil_or_tight_of_mem_fillParagraphs {l : Text}
    (h : l ∈ fillParagraphs s indent columns) : l = [] ∨ ∃ t, l = indent ++ t ∧ Tight t := by
  rcases mem_fillParagraphs_cases h with hnil | ⟨p, -, hp⟩
  · exact Or.inl hnil
  · exact Or.inr (exists_tight_of_mem_fillParagraph hp)

private theorem runs_paragraphLines (hind : indent.isBlank = true) (columns : Nat) (p : Text)
    (ls : List Text) :
    runs [] (paragraphLines indent columns p ++ ls) = closeRun (words p) ++ runs [] ls := by
  have hwords := flatMap_words_fillParagraph hind columns p
  unfold paragraphLines
  split
  · rename_i hnil
    rw [hnil, List.flatMap_nil] at hwords
    rw [← hwords]
    split <;> rfl
  · rw [List.append_assoc, runs_append_text fun l hl => isBlank_of_mem_fillParagraph hl, hwords]
    exact runs_cons_blank rfl _ ls

private theorem runs_fillParagraphs (hind : indent.isBlank = true) (columns : Nat) (s : Text) :
    runs [] (fillParagraphs s indent columns) = (paragraphs s).flatMap fun p => closeRun (words p) := by
  have hall : ∀ ps : List Text, runs [] (ps.flatMap (paragraphLines indent columns)) =
      ps.flatMap fun p => closeRun (words p) := by
    intro ps
    induction ps with
    | nil => rfl
    | cons p ps ih => rw [List.flatMap_cons, runs_paragraphLines hind, ih, List.flatMap_cons]
  simp only [fillParagraphs]
  split
  · rename_i hnot
    have hsolid := fun l hl => @isBlank_of_mem_fillParagraph indent columns s l hl
    have hruns := runs_append_text hsolid [] []
    rw [List.append_nil, List.nil_append, flatMap_words_fillParagraph hind] at hruns
    rw [hruns, paragraphs_of_not_includes (by simpa using hnot), List.flatMap_singleton]
    rfl
  · split
    · exact hall _
    · rw [runs_dropLastEmpty, hall]

end Filled

section Read

variable {indent a g l s t : Text} {run ls : List Text}

private theorem runs_cons_dropTerminator (b : Text) (run ls : List Text) :
    runs run (Text.dropTerminator (b ++ ['\n']) :: ls) = runs run (b :: ls) := by
  refine runs_cons_congr ?_ run ls
  rw [Text.words_dropTerminator, Text.words_append_of_blank b (by decide)]

private theorem runs_lines_unlines (hls : ∀ l ∈ ls, '\n' ∉ l) (run : List Text) :
    runs run (lines (unlines ls)) = runs run ls := by
  induction ls generalizing run with
  | nil => rfl
  | cons l ls ih =>
    have hl := hls l (by simp)
    cases ls with
    | nil =>
      rw [show unlines [l] = l from rfl, runs_lines_of_not_mem hl]
      cases hblank : l.isBlank with
      | true =>
        rw [runs_cons_blank hblank, Text.words_of_blank hblank, List.append_nil]
        exact (List.append_nil _).symm
      | false => exact (runs_cons_text hblank run []).symm
    | cons k ls =>
      have hrest := ih fun k hk => hls k (List.mem_cons_of_mem l hk)
      rw [Text.unlines_cons_cons, Text.lines_append_newline_eq hl, runs_cons_dropTerminator, runs,
        runs, hrest, hrest]

private theorem runs_lines_append_blank (hg : g.isBlank = true) (hnewline : '\n' ∉ g) (a t : Text)
    (run : List Text) :
    runs run (lines (a ++ '\n' :: (g ++ '\n' :: t))) = runs run (lines a) ++ paragraphWords t := by
  have hgap : ∀ run, runs run (lines (g ++ '\n' :: t)) = closeRun run ++ paragraphWords t := by
    intro run
    rw [Text.lines_append_newline_eq hnewline, runs_cons_dropTerminator, runs_cons_blank hg]
    rfl
  induction a using Text.line_induction generalizing run with
  | last b hb =>
    rw [Text.lines_append_newline_eq hb, runs_cons_dropTerminator, runs_lines_of_not_mem hb]
    cases hblank : b.isBlank with
    | true =>
      rw [runs_cons_blank hblank, hgap, closeRun_nil, List.nil_append, Text.words_of_blank hblank,
        List.append_nil]
    | false => rw [runs_cons_text hblank, hgap]
  | line b s hb ih =>
    rw [List.append_assoc, List.cons_append, Text.lines_append_newline_eq hb,
      Text.lines_append_newline_eq hb, runs_cons_dropTerminator, runs_cons_dropTerminator]
    cases hblank : b.isBlank with
    | true => rw [runs_cons_blank hblank, runs_cons_blank hblank, ih, List.append_assoc]
    | false => rw [runs_cons_text hblank, runs_cons_text hblank, ih]

private theorem paragraphWords_blank_append (hg : g.isBlank = true) (t : Text) :
    paragraphWords (g ++ t) = paragraphWords t := by
  unfold paragraphWords
  induction g using Text.line_induction with
  | last b hb =>
    rcases Text.newline_split t with ht | ⟨u, v, rfl, hu⟩
    · have hbt : '\n' ∉ b ++ t := by simp [hb, ht]
      rw [runs_lines_of_not_mem hbt, runs_lines_of_not_mem ht, Text.words_blank_append hg]
    · have hbu : '\n' ∉ b ++ u := by simp [hb, hu]
      rw [← List.append_assoc, Text.lines_append_newline_eq hbu, Text.lines_append_newline_eq hu,
        runs_cons_dropTerminator, runs_cons_dropTerminator,
        runs_cons_congr (Text.words_blank_append hg u)]
  | line b s hb ih =>
    rw [Text.isBlank_append, Bool.and_eq_true] at hg
    rw [List.append_assoc, List.cons_append, Text.lines_append_newline_eq hb, runs_cons_dropTerminator,
      runs_cons_blank hg.1, closeRun_nil, List.nil_append, ih hg.2]

private theorem runs_lines_concat_newline (a : Text) (run : List Text) :
    runs run (lines (a ++ ['\n'])) = runs run (lines a) := by
  induction a using Text.line_induction generalizing run with
  | last b hb =>
    have hsame : runs run (lines (unlines [b])) = runs run [b] :=
      runs_lines_unlines (by simpa using hb) run
    rw [Text.lines_append_newline_eq hb, runs_cons_dropTerminator]
    exact hsame.symm
  | line b s hb ih =>
    rw [List.append_assoc, List.cons_append, Text.lines_append_newline_eq hb,
      Text.lines_append_newline_eq hb, runs, runs, ih, ih]

private theorem paragraphWords_append_newline (hg : g.isBlank = true) (hnewline : '\n' ∈ g)
    (a t : Text) :
    paragraphWords (a ++ '\n' :: (g ++ t)) = paragraphWords a ++ paragraphWords (g ++ t) := by
  rcases Text.newline_split g with hg' | ⟨u, v, rfl, hu⟩
  · exact absurd hnewline hg'
  · have hparts : Text.isBlank u = true ∧ Text.isBlank v = true := by
      rwa [Text.isBlank_append, Bool.and_eq_true] at hg
    rw [paragraphWords_blank_append hg, List.append_assoc, List.cons_append, paragraphWords,
      runs_lines_append_blank hparts.1 hu, paragraphWords_blank_append hparts.2]
    rfl

private theorem paragraphWords_unlines_cons (hind : indent.isBlank = true)
    (hnewline : '\n' ∈ indent)
    (hls : ∀ l ∈ ls, l = [] ∨ ∃ t, l = indent ++ t ∧ Tight t) (l : Text) :
    paragraphWords (unlines (l :: ls)) = paragraphWords l ++ paragraphWords (unlines ls) := by
  cases ls with
  | nil => exact (List.append_nil _).symm
  | cons k ls =>
    rw [Text.unlines_cons_cons]
    rcases hls k (by simp) with rfl | ⟨t, rfl, -⟩
    · cases ls with
      | nil => exact (runs_lines_concat_newline l []).trans (List.append_nil _).symm
      | cons m ls => exact paragraphWords_append_newline (g := ['\n']) (by decide) (by simp) l _
    · rw [Text.unlines_cons_append]
      exact paragraphWords_append_newline hind hnewline l _

private theorem paragraphWords_unlines (hind : indent.isBlank = true) (hnewline : '\n' ∈ indent)
    (hls : ∀ l ∈ ls, l = [] ∨ ∃ t, l = indent ++ t ∧ Tight t) :
    paragraphWords (unlines ls) = (ls.filter fun line => !Text.isBlank line).map words := by
  induction ls with
  | nil => rfl
  | cons l ls ih =>
    have hrest : ∀ k ∈ ls, k = [] ∨ ∃ t, k = indent ++ t ∧ Tight t :=
      fun k hk => hls k (List.mem_cons_of_mem l hk)
    rw [paragraphWords_unlines_cons hind hnewline hrest, ih hrest]
    rcases hls l (by simp) with rfl | ⟨t, rfl, ht⟩
    · rfl
    · have htext := isBlank_append_tight ht indent
      have hwords : words t ≠ [] := Text.words_ne_nil_of_not_blank (isBlank_append_tight ht [])
      rw [paragraphWords_blank_append hind, paragraphWords, runs_lines_of_not_mem ht.blanks.no_break.1,
        List.nil_append, closeRun_of_ne_nil hwords, List.filter_cons_of_pos (by simp [htext]),
        List.map_cons, Text.words_blank_append hind]
      rfl

/-- Filling keeps the paragraphs of a text whose blank lines are empty, unless the indentation holds a
line feed and some paragraph takes up two lines. -/
theorem paragraphs_survive_filling_iff (hind : indent.isBlank = true) (hreturn : '\r' ∉ s)
    (hempty : BlankLinesEmpty s) (columns : Nat) :
    paragraphWords (unlines (fillParagraphs s indent columns)) = paragraphWords s ↔
      '\n' ∉ indent ∨
        (fillParagraphs s indent columns).IsChain fun a b => a.isBlank = true ∨ b.isBlank = true := by
  have hruns : runs [] (fillParagraphs s indent columns) = paragraphWords s := by
    rw [runs_fillParagraphs hind, paragraphWords_eq hreturn hempty]
  have hlines := fun l hl => @eq_nil_or_tight_of_mem_fillParagraphs indent s columns l hl
  by_cases hnewline : '\n' ∈ indent
  · rw [paragraphWords_unlines hind hnewline hlines, ← hruns, map_words_eq_runs_iff]
    exact ⟨Or.inr, fun h => h.resolve_left (not_not_intro hnewline)⟩
  · have hplain : ∀ l ∈ fillParagraphs s indent columns, '\n' ∉ l := by
      intro l hl
      rcases hlines l hl with rfl | ⟨t, rfl, ht⟩
      · simp
      · simp [hnewline, ht.blanks.no_break.1]
    rw [paragraphWords, runs_lines_unlines hplain, hruns]
    exact iff_of_true rfl (Or.inl hnewline)

theorem paragraphs_survive_narrow_filling :
    let s : Text := "\none two three\nfour\n\n\n\nfive  six\n\n \t".toList
    let indent : Text := [' ', '\t']
    indent.isBlank = true ∧ '\r' ∉ s ∧ BlankLinesEmpty s ∧
      fillParagraphs s indent 9 =
        [" \tone two".toList, " \tthree".toList, " \tfour".toList, [], [], " \tfive".toList,
          " \tsix".toList, []] ∧
      paragraphWords (unlines (fillParagraphs s indent 9)) = paragraphWords s := by
  intro s indent
  have hind : indent.isBlank = true := by decide
  have hreturn : '\r' ∉ s := by decide
  have hempty : BlankLinesEmpty s := by decide
  exact ⟨hind, hreturn, hempty, by decide,
    (paragraphs_survive_filling_iff hind hreturn hempty 9).mpr (Or.inl (by decide))⟩

/-- A line feed in the indentation parts the two lines of a paragraph. -/
theorem indentation_parts_paragraph :
    let s : Text := "a b".toList
    let indent : Text := ['\n']
    indent.isBlank = true ∧ '\r' ∉ s ∧ BlankLinesEmpty s ∧
      paragraphWords s = [[['a'], ['b']]] ∧
      paragraphWords (unlines (fillParagraphs s indent 1)) = [[['a']], [['b']]] ∧
      paragraphWords (unlines (fillParagraphs s indent 1)) ≠ paragraphWords s := by
  decide

end Read

end DocstringFormat.Docstring
