import DocstringFormat.Proofs.Docstring.Characters
import DocstringFormat.Proofs.Text.Columns

/-!
How wide the lines of a formatted summary are.

Every layout fills the summary to the column limit, so its lines fit or hold a single word.  Where
the quotes stand in front of the first line of a summary with a description, three blanks keep their
place.  Openings with a mark or with a space are longer than that, and push a line that is full
beyond the limit (`Overshoots`); no other line of a summary ever leaves it (`summary_fits_iff`).
-/

set_option autoImplicit false

namespace DocstringFormat.Docstring

open Text (words width escapeChar Over over_append over_cons Filled FitsAfter IsPrintable Spaces
  isBlank_of_spaces escapeChar_not_mem_of_spaces spaces_of_indent spaces_of_solid)

/-- The lines of the summary of a formatted literal, on their place after the indentation: all up to
the first blank line. -/
def summaryLines (indent output : Text) : List Text :=
  (Text.lines (indent ++ output)).takeWhile fun line => !line.isBlank

def proseWords (line : Text) : List Text :=
  (words line).filter fun w => !canonicalOpenings.contains w

/-- A line keeps to a limit unless it holds a single word. -/
def Fits (columns : Nat) (line : Text) : Prop :=
  width line ≤ columns ∨ (proseWords line).length ≤ 1

/-- The first line of a summary, with three blanks where the opening quotes are to stand, has
several words and is too full for the quotes that come there. -/
def Overshoots (o : Options) (indent opening contents : Text) : Prop :=
  (split o.abbreviations contents).2 ≠ [] ∧ o.preSummaryNewline = false ∧
    ∃ line ∈ (Text.fill (normalizeSummary o.nonCap (split o.abbreviations contents).1).unwrap
        o.wrapSummaries (indent ++ [' ', ' ', ' ']) indent).head?,
      2 ≤ (words line).length ∧
        o.wrapSummaries < width line + ((openingQuotes o opening).length - 3)

section Lines

variable {columns : Nat} {indent : Text}

/-- A line keeps to a limit unless it is a single word, quotes and all. -/
def Narrow (columns : Nat) (line : Text) : Prop :=
  (words line).length ≤ 1 ∨ width line ≤ columns

theorem Narrow.fits {line : Text} (h : Narrow columns line) : Fits columns line := by
  rcases h with hshort | hwidth
  · exact Or.inr ((List.length_filter_le _ _).trans hshort)
  · exact Or.inl hwidth

theorem Fits.mono {line : Text} (h : Fits columns line) {limit : Nat} (hle : columns ≤ limit) :
    Fits limit line :=
  h.imp_left fun hwidth => hwidth.trans hle

private theorem narrow_indented (hindent : Over (· = ' ') indent) {line : Text}
    (h : FitsAfter columns indent line) : Narrow columns (indent ++ line) := by
  rw [Narrow, Text.words_blank_append (isBlank_of_spaces hindent),
    Text.width_append (escapeChar_not_mem_of_spaces hindent)]
  exact h

end Lines

section Wrapping

variable {columns : Nat} {initial subsequent : Text}

structure Wrapped (summary : Text) (columns : Nat) (initial subsequent first : Text)
    (rest : List Text) : Prop where
  eq : wrapSummary summary initial subsequent columns =
    Text.unlines (first :: rest.map (subsequent ++ ·))
  words : words first ++ rest.flatMap words = words summary
  start : (Text.fill summary.unwrap columns initial subsequent).head? = some (initial ++ first) ∨
    (Text.fill summary.unwrap columns initial subsequent).head? = none ∧ first = []
  head : ∀ c, first.head? = some c → Character.isBlank c = false
  spaces : ∀ l ∈ first :: rest, Spaces l
  first : FitsAfter columns initial first
  rest : ∀ l ∈ rest, FitsAfter columns subsequent l

private theorem trim_unlines_filled {s first : Text} {rest : List Text}
    (hi : Text.isBlank initial = true) (h : Filled s columns initial subsequent first rest) :
    Text.trim (Text.unlines ((initial ++ first) :: rest.map (subsequent ++ ·))) =
      Text.unlines (first :: rest.map (subsequent ++ ·)) := by
  have hfirst := h.tight first (by simp)
  have hstart : ∀ t : Text, Text.trim (initial ++ t) = Text.trim t := by
    intro t
    rw [Text.trim, Text.trimStart, List.dropWhile_append_of_pos (List.all_eq_true.mp hi)]
    rfl
  rw [Text.unlines_cons_append, hstart]
  apply trim_eq_self
  · intro c hc
    obtain ⟨d, r, hd⟩ := List.exists_cons_of_ne_nil hfirst.ne_nil
    rw [hd, ← List.append_nil (d :: r), Text.unlines_cons_append] at hc
    exact hfirst.head c (by rw [hd]; exact hc)
  · intro c hc
    rcases List.eq_nil_or_concat' rest with rfl | ⟨init, l, rfl⟩
    · exact hfirst.last c hc
    · have hl := h.tight l (by simp)
      rw [List.map_append, List.map_singleton, ← List.cons_append, Text.unlines_concat,
        ← List.append_assoc, List.getLast?_append_of_ne_nil _ hl.ne_nil] at hc
      exact hl.last c hc

private theorem exists_wrapped (summary : Text) (hescape : escapeChar ∉ summary)
    (hcolumns : 0 < columns) (hi : Text.isBlank initial = true)
    (hsub : Text.isBlank subsequent = true) :
    ∃ first rest, Wrapped summary columns initial subsequent first rest := by
  by_cases hblank : words summary = []
  · have hunwrap : summary.unwrap = [] := by rw [Text.unwrap, hblank]; rfl
    have hfill : Text.fill summary.unwrap columns initial subsequent = [] := by
      rw [hunwrap]
      rfl
    refine ⟨[], [], ?_, by simp [hblank], Or.inr ⟨by rw [hfill]; rfl, rfl⟩, by simp, ?_,
      Or.inl (by simp), by simp⟩
    · rw [wrapSummary, if_neg (Nat.pos_iff_ne_zero.mp hcolumns), hfill]
      rfl
    · intro l hl
      rw [List.mem_singleton.mp hl]
      intro c hc
      cases hc
  · have hplain : escapeChar ∉ summary.unwrap := by
      have hover : Over (· ≠ escapeChar) summary.unwrap :=
        Over.unwrap (fun c hc h => hescape (h ▸ hc)) (by decide)
      exact fun h => hover _ h rfl
    obtain ⟨first, rest, hfilled⟩ := Text.exists_filled (s := summary.unwrap)
      (by rwa [Text.words_unwrap]) hplain hcolumns hi hsub
    refine ⟨first, rest, ?_, ?_, Or.inl ?_, (hfilled.tight first (by simp)).head,
      fun l hl => (hfilled.tight l hl).blanks, hfilled.first, hfilled.rest⟩
    · rw [wrapSummary, if_neg (Nat.pos_iff_ne_zero.mp hcolumns), hfilled.eq,
        trim_unlines_filled hi hfilled]
    · rw [hfilled.words, Text.words_unwrap]
    · rw [hfilled.eq]
      rfl

end Wrapping

section Reading

variable {indent output : Text} {ls : List Text}

private theorem summaryLines_eq {tail : Text} (hne : ls ≠ []) (hls : ∀ l ∈ ls, Spaces l)
    (heq : indent ++ output = Text.unlines ls ++ '\n' :: '\n' :: tail) :
    summaryLines indent output = ls.takeWhile fun line => !line.isBlank := by
  have hempty : Text.lines ('\n' :: tail) = [] :: Text.lines tail :=
    Text.lines_append_newline (b := []) (by simp) (by simp) tail
  rw [summaryLines, heq, Text.lines_unlines_append hne fun l hl => (hls l hl).no_break, hempty,
    List.takeWhile_append]
  have hstop : List.takeWhile (fun line : Text => !line.isBlank) ([] :: Text.lines tail) = [] :=
    List.takeWhile_cons_of_neg (by decide)
  split
  · rename_i hlength
    rw [hstop, List.append_nil]
    exact ((List.takeWhile_prefix _).eq_of_length hlength).symm
  · rfl

end Reading

section Quotes

variable {indent opening : Text} {o : Options}

private theorem not_mem_canonicalOpenings {w : Text} (h : QuoteFree w) : w ∉ canonicalOpenings := by
  have hall : ∀ p ∈ canonicalOpenings, ¬ QuoteFree p := by decide
  exact fun hw => hall w hw h

private theorem append_not_mem_canonicalOpenings (hopening : opening ∈ canonicalOpenings) {w : Text}
    (hw : w ≠ []) : opening ++ w ∉ canonicalOpenings := by
  obtain ⟨c, r, rfl⟩ := List.exists_cons_of_ne_nil hw
  simp only [canonicalOpenings, List.mem_cons, List.not_mem_nil, or_false] at hopening ⊢
  rcases hopening with rfl | rfl | rfl <;> simp [tripleDouble]

private theorem length_proseWords_opening (hindent : Over (· = ' ') indent)
    (hopening : opening ∈ canonicalOpenings) {first : Text}
    (hhead : ∀ c, first.head? = some c → Character.isBlank c = false)
    (hwords : ∀ w ∈ words first, w ∉ canonicalOpenings) :
    (proseWords (indent ++ openingQuotes o opening ++ first)).length = (words first).length := by
  have hsolid := canonical_solid hopening
  have hne := canonical_ne_nil hopening
  have hkept : (words first).filter (fun w => !canonicalOpenings.contains w) = words first :=
    List.filter_eq_self.mpr fun w hw => by simpa using hwords w hw
  have hbare : (words opening).filter (fun w => !canonicalOpenings.contains w) = [] := by
    rw [Text.words_of_solid hne hsolid]
    simp [hopening]
  rw [List.append_assoc, proseWords, Text.words_blank_append (isBlank_of_spaces hindent)]
  unfold openingQuotes
  split
  · rw [List.append_assoc, List.singleton_append, Text.words_append_blank _ (by decide),
      List.filter_append, hkept, hbare, List.nil_append]
  · cases first with
    | nil => rw [List.append_nil, hbare, Text.words_nil]
    | cons c r =>
      obtain ⟨w, ws, hw⟩ := Text.words_cons_solid (hhead c rfl) r
      have hglued := append_not_mem_canonicalOpenings hopening (w := c :: w) (by simp)
      have hall : ∀ v ∈ (opening ++ c :: w) :: ws, (!canonicalOpenings.contains v) = true := by
        intro v hv
        rcases List.mem_cons.mp hv with rfl | hv
        · simpa using hglued
        · simpa using hwords v (by rw [hw]; exact List.mem_cons_of_mem _ hv)
      rw [Text.words_solid_append hsolid hhead hw, List.filter_eq_self.mpr hall, hw]
      rfl

private theorem width_openingQuotes (hopening : opening ∈ canonicalOpenings) :
    width (openingQuotes o opening) = (openingQuotes o opening).length ∧
      escapeChar ∉ openingQuotes o opening ∧ 3 ≤ (openingQuotes o opening).length ∧
      (openingQuotes o opening).length ≤ 5 := by
  have hall : ∀ p ∈ canonicalOpenings, ∀ gap ∈ [[], [' ']],
      width (p ++ gap) = (p ++ gap).length ∧ escapeChar ∉ p ++ gap ∧ 3 ≤ (p ++ gap).length ∧
        (p ++ gap).length ≤ 5 := by decide
  unfold openingQuotes
  split
  · exact hall opening hopening [' '] (by simp)
  · have h := hall opening hopening [] (by simp)
    rwa [List.append_nil] at h

private theorem isBlank_openingQuotes (hopening : opening ∈ canonicalOpenings) :
    Text.isBlank (openingQuotes o opening) = false := by
  have hall : ∀ p ∈ canonicalOpenings, Text.isBlank p = false := by decide
  unfold openingQuotes
  split
  · rw [Text.isBlank_append, hall opening hopening, Bool.false_and]
  · exact hall opening hopening

private theorem spaces_openingQuotes (hopening : opening ∈ canonicalOpenings) :
    Spaces (openingQuotes o opening) := by
  have hsolid := spaces_of_solid (canonical_solid hopening)
  unfold openingQuotes
  split
  · exact hsolid.append fun c hc _ => List.mem_singleton.mp hc
  · exact hsolid

private theorem fits_bare_quotes (hindent : Over (· = ' ') indent)
    (hopening : opening ∈ canonicalOpenings)
    (columns : Nat) : Fits columns (indent ++ openingQuotes o opening) := by
  have hnone : (proseWords (indent ++ openingQuotes o opening ++ [])).length = 0 :=
    length_proseWords_opening hindent hopening (by simp) (by simp)
  rw [List.append_nil] at hnone
  exact Or.inr (by simp [hnone])

end Quotes

/-- How far the lines of a summary keep to a limit: all do unless a condition holds, all but the
first do always, and the first is never more than two columns too wide. -/
structure Bounded (columns : Nat) (lines : List Text) (exception : Prop) : Prop where
  fits : (∀ line ∈ lines, Fits columns line) ↔ ¬ exception
  later : ∀ line ∈ lines.drop 1, Fits columns line
  nearly : ∀ line ∈ lines, Fits (columns + 2) line

private theorem bounded_of_fits {columns : Nat} {lines : List Text} {exception : Prop}
    (h : ∀ line ∈ lines, Fits columns line) (hnot : ¬ exception) :
    Bounded columns lines exception where
  fits := ⟨fun _ => hnot, fun _ => h⟩
  later line hline := h line (List.mem_of_mem_drop hline)
  nearly line hline := (h line hline).mono (Nat.le_add_right _ _)

section Layouts

variable {o : Options} {indent opening summary description first : Text} {rest : List Text}

theorem Wrapped.later {columns : Nat} {initial : Text} (hindent : Over (· = ' ') indent)
    (h : Wrapped summary columns initial indent first rest) :
    ∀ line ∈ rest.map (indent ++ ·), Spaces line ∧ Narrow columns line := by
  intro line hline
  obtain ⟨l, hl, rfl⟩ := List.mem_map.mp hline
  exact ⟨(spaces_of_indent hindent).append (h.spaces l (List.mem_cons_of_mem _ hl)),
    narrow_indented hindent (h.rest l hl)⟩

theorem Wrapped.all {columns : Nat} (hindent : Over (· = ' ') indent)
    (h : Wrapped summary columns indent indent first rest) :
    ∀ line ∈ (indent ++ first) :: rest.map (indent ++ ·), Spaces line ∧ Narrow columns line := by
  intro line hline
  rcases List.mem_cons.mp hline with rfl | hline
  · exact ⟨(spaces_of_indent hindent).append (h.spaces first (by simp)),
      narrow_indented hindent h.first⟩
  · exact h.later hindent line hline

private theorem exists_layoutWithDescription_tail (o : Options)
    (indent quotes summary description : Text) :
    ∃ tail, layoutWithDescription o indent quotes summary description 0 =
      quotes ++ (if o.preSummaryNewline then '\n' :: indent else []) ++
        wrapSummary summary (if o.preSummaryNewline then indent else indent ++ [' ', ' ', ' '])
          indent o.wrapSummaries ++ '\n' :: '\n' :: tail := by
  refine ⟨wrapDescription (descriptionOptions o 0) description indent ++
    (if o.postDescriptionBlank then ['\n'] else []) ++ ['\n'] ++ indent ++ tripleDouble, ?_⟩
  simp only [layoutWithDescription, Nat.sub_zero, List.append_assoc, List.cons_append,
    List.nil_append]

private theorem Wrapped.exists_start_iff {columns : Nat} {initial subsequent : Text}
    {P : Text → Prop}
    (h : Wrapped summary columns initial subsequent first rest) (hblank : ¬ P initial) :
    (∃ line ∈ (Text.fill summary.unwrap columns initial subsequent).head?, P line) ↔
      P (initial ++ first) := by
  rcases h.start with hstart | ⟨hnone, rfl⟩
  · simp [hstart]
  · simp [hnone, hblank]

private theorem fits_opening_iff (columns : Nat) (hindent : Over (· = ' ') indent)
    (hopening : opening ∈ canonicalOpenings)
    (hhead : ∀ c, first.head? = some c → Character.isBlank c = false)
    (hwords : ∀ w ∈ words first, w ∉ canonicalOpenings) :
    Fits columns (indent ++ openingQuotes o opening ++ first) ↔
      width indent + (openingQuotes o opening).length + width first ≤ columns ∨
        (words first).length ≤ 1 := by
  obtain ⟨hquotes, hplain, -, -⟩ := width_openingQuotes (o := o) hopening
  have hescape := escapeChar_not_mem_of_spaces hindent
  have hboth : escapeChar ∉ indent ++ openingQuotes o opening := by
    rw [List.mem_append, not_or]
    exact ⟨hescape, hplain⟩
  rw [Fits, length_proseWords_opening hindent hopening hhead hwords, Text.width_append hboth,
    Text.width_append hescape, hquotes]

variable (hindent : Over (· = ' ') indent) (hopening : opening ∈ canonicalOpenings)
  (hescape : escapeChar ∉ summary) (hcolumns : 0 < o.wrapSummaries)
include hindent hopening hescape hcolumns

private theorem fits_layoutWithDescription (hnewline : o.preSummaryNewline = true) :
    ∀ line ∈ summaryLines indent
        (layoutWithDescription o indent (openingQuotes o opening) summary description 0),
      Fits o.wrapSummaries line := by
  have hblank := isBlank_of_spaces hindent
  obtain ⟨first, rest, hwrapped⟩ := exists_wrapped summary hescape hcolumns hblank hblank
  have hall : ∀ line ∈ (indent ++ openingQuotes o opening) :: (indent ++ first) ::
      rest.map (indent ++ ·), Spaces line ∧ Fits o.wrapSummaries line := by
    intro line hline
    rcases List.mem_cons.mp hline with rfl | hline
    · exact ⟨(spaces_of_indent hindent).append (spaces_openingQuotes hopening),
        fits_bare_quotes hindent hopening _⟩
    · obtain ⟨hspaces, hnarrow⟩ := hwrapped.all hindent line hline
      exact ⟨hspaces, hnarrow.fits⟩
  obtain ⟨tail, htail⟩ :=
    exists_layoutWithDescription_tail o indent (openingQuotes o opening) summary description
  rw [hnewline, if_pos rfl, if_pos rfl, hwrapped.eq] at htail
  have heq : indent ++ layoutWithDescription o indent (openingQuotes o opening) summary
      description 0 = Text.unlines ((indent ++ openingQuotes o opening) :: (indent ++ first) ::
        rest.map (indent ++ ·)) ++ '\n' :: '\n' :: tail := by
    rw [htail, Text.unlines_cons_cons, Text.unlines_cons_append]
    simp only [List.append_assoc, List.cons_append]
  intro line hline
  rw [summaryLines_eq (by simp) (fun l hl => (hall l hl).1) heq] at hline
  exact (hall line ((List.takeWhile_prefix _).subset hline)).2

private theorem bounded_layoutWithDescription (hfree : QuoteFree summary)
    (hnewline : o.preSummaryNewline = false) :
    Bounded o.wrapSummaries
      (summaryLines indent
        (layoutWithDescription o indent (openingQuotes o opening) summary description 0))
      (∃ line ∈ (Text.fill summary.unwrap o.wrapSummaries (indent ++ [' ', ' ', ' '])
          indent).head?, 2 ≤ (words line).length ∧
        o.wrapSummaries < width line + ((openingQuotes o opening).length - 3)) := by
  have hblank := isBlank_of_spaces hindent
  have hspaced : Over (· = ' ') (indent ++ [' ', ' ', ' ']) := by simpa using hindent
  have hinitial := isBlank_of_spaces hspaced
  have hwidth : width (indent ++ [' ', ' ', ' ']) = width indent + 3 :=
    Text.width_append (escapeChar_not_mem_of_spaces hindent) _
  obtain ⟨first, rest, hwrapped⟩ := exists_wrapped summary hescape hcolumns hinitial hblank
  obtain ⟨-, -, hlow, hhigh⟩ := width_openingQuotes (o := o) hopening
  have hwords : ∀ w ∈ words first, w ∉ canonicalOpenings := by
    intro w hw
    refine not_mem_canonicalOpenings (hfree.of_isInfix (Text.mem_words (w := w) ?_).2.2)
    rw [← hwrapped.words]
    exact List.mem_append_left _ hw
  have hfits := fun columns => fits_opening_iff (o := o) columns hindent hopening
    hwrapped.head hwords
  have hfirst := hwrapped.first
  rw [FitsAfter, hwidth] at hfirst
  -- Only the first line can be too wide, by what the quotes are longer than three blanks.
  obtain ⟨tail, htail⟩ :=
    exists_layoutWithDescription_tail o indent (openingQuotes o opening) summary description
  rw [hnewline, if_neg Bool.false_ne_true, if_neg Bool.false_ne_true, hwrapped.eq,
    List.append_nil] at htail
  have heq : indent ++ layoutWithDescription o indent (openingQuotes o opening) summary
      description 0 = Text.unlines ((indent ++ openingQuotes o opening ++ first) ::
        rest.map (indent ++ ·)) ++ '\n' :: '\n' :: tail := by
    rw [htail, Text.unlines_cons_append]
    simp only [List.append_assoc]
  have hspaces : ∀ l ∈ (indent ++ openingQuotes o opening ++ first) :: rest.map (indent ++ ·),
      Spaces l := by
    intro l hl
    rcases List.mem_cons.mp hl with rfl | hl
    · exact ((spaces_of_indent hindent).append (spaces_openingQuotes hopening)).append
        (hwrapped.spaces first (by simp))
    · exact (hwrapped.later hindent l hl).1
  have hnotBlank : Text.isBlank (indent ++ openingQuotes o opening ++ first) = false := by
    rw [Text.isBlank_append, Text.isBlank_append, isBlank_openingQuotes hopening, Bool.and_false,
      Bool.false_and]
  rw [summaryLines_eq (by simp) hspaces heq,
    List.takeWhile_cons_of_pos (by rw [hnotBlank, Bool.not_false])]
  have hlater : ∀ line ∈ (rest.map (indent ++ ·)).takeWhile fun line => !line.isBlank,
      Fits o.wrapSummaries line :=
    fun line hline =>
      (hwrapped.later hindent line ((List.takeWhile_prefix _).subset hline)).2.fits
  refine ⟨?_, hlater, ?_⟩
  · have hstart := Text.width_append (escapeChar_not_mem_of_spaces hspaced) first
    rw [List.forall_mem_cons, hfits,
      hwrapped.exists_start_iff (by simp [Text.words_of_blank hinitial]),
      Text.words_blank_append hinitial, hstart, hwidth, and_iff_left hlater]
    omega
  · intro line hline
    rcases List.mem_cons.mp hline with rfl | hline
    · rw [hfits]
      omega
    · exact (hlater line hline).mono (Nat.le_add_right _ _)

omit hopening hescape hcolumns hindent in
/-- Lines that fit, once joined, are a summary that fits. -/
private theorem fits_of_unlines {columns : Nat} {output : Text} (ls : List Text)
    (hls : ∀ l ∈ ls, Spaces l ∧ Fits columns l) (heq : indent ++ output = Text.unlines ls) :
    ∀ line ∈ summaryLines indent output, Fits columns line := by
  intro line hline
  have hmem := (List.takeWhile_prefix _).subset hline
  rw [heq] at hmem
  exact (hls line (Text.mem_lines_unlines (fun l hl => (hls l hl).1.no_break) hmem)).2

omit hopening hescape hcolumns in
private theorem fits_closing_quotes (columns : Nat) :
    Spaces (indent ++ tripleDouble) ∧ Fits columns (indent ++ tripleDouble) :=
  ⟨(spaces_of_indent hindent).append (spaces_of_solid tripleDouble_solid),
    (narrow_indented hindent (Or.inl (by decide))).fits⟩

private theorem fits_multiLine (hmulti : o.makeSummaryMultiLine = true) :
    ∀ line ∈ summaryLines indent (layoutSummary o indent (openingQuotes o opening) summary 0),
      Fits o.wrapSummaries line := by
  have hblank := isBlank_of_spaces hindent
  obtain ⟨first, rest, hwrapped⟩ := exists_wrapped summary hescape hcolumns hblank hblank
  refine fits_of_unlines ((indent ++ openingQuotes o opening) :: (indent ++ first) ::
      rest.map (indent ++ ·) ++ [indent ++ tripleDouble]) ?_ ?_
  · intro line hline
    rcases List.mem_append.mp hline with hline | hline
    · rcases List.mem_cons.mp hline with rfl | hline
      · exact ⟨(spaces_of_indent hindent).append (spaces_openingQuotes hopening),
          fits_bare_quotes hindent hopening _⟩
      · obtain ⟨hspaces, hnarrow⟩ := hwrapped.all hindent line hline
        exact ⟨hspaces, hnarrow.fits⟩
    · rw [List.mem_singleton.mp hline]
      exact fits_closing_quotes hindent _
  · rw [Text.unlines_concat_of_ne_nil (by simp), Text.unlines_cons_cons, Text.unlines_cons_append, ← hwrapped.eq]
    simp only [layoutSummary, hmulti, if_true, Nat.sub_zero, List.append_assoc, List.cons_append,
      List.nil_append]

omit hindent hopening hescape hcolumns in
/-- Taking quotes off the end of a line leaves it narrow. -/
private theorem Narrow.of_quotes {columns : Nat} {line : Text} (hplain : escapeChar ∉ line)
    (h : Narrow columns (line ++ tripleDouble)) : Narrow columns line := by
  obtain ⟨u, run, rfl, hrun, hu⟩ := Text.exists_last_run line
  rw [Narrow, Text.width_append hplain,
    Text.words_append_run hu hrun tripleDouble_solid (by decide)] at h
  have hlast : (words run).length ≤ 1 := by
    by_cases hne : run = []
    · subst hne
      simp
    · rw [Text.words_of_solid hne hrun, List.length_singleton]
  rw [Narrow, Text.words_append_of_ended hu]
  simp only [List.length_append, List.length_singleton] at h ⊢
  omega

omit hindent hopening hescape hcolumns in
/-- Formatting writes no escape characters of its own. -/
private theorem admits_plain : Admits (· ≠ escapeChar) := by
  refine ⟨by decide, by decide, by decide, by decide, by decide, ?_⟩
  intro c hc d hd hescape
  rw [hescape] at hd
  exact not_mem_uppercase (by decide) (by decide) hc hd

private theorem fits_oneLine (hmulti : o.makeSummaryMultiLine = false) :
    ∀ line ∈ summaryLines indent (layoutSummary o indent (openingQuotes o opening) summary 0),
      Fits o.wrapSummaries line := by
  have hblank := isBlank_of_spaces hindent
  obtain ⟨-, hquotes, -, -⟩ := width_openingQuotes (o := o) hopening
  have hplain : escapeChar ∉ openingQuotes o opening ++ summary ++ tripleDouble := by
    simp only [List.mem_append, not_or]
    exact ⟨⟨hquotes, hescape⟩, by decide⟩
  obtain ⟨first, rest, hwrapped⟩ := exists_wrapped _ hplain hcolumns hblank hblank
  obtain ⟨body, hbody, -⟩ := exists_wrapSummary_eq hblank hblank
    (openingQuotes o opening ++ summary) o.wrapSummaries
  have hlines := hwrapped.all hindent
  have heq : indent ++ (body ++ tripleDouble) =
      Text.unlines ((indent ++ first) :: rest.map (indent ++ ·)) := by
    rw [← hbody, hwrapped.eq, Text.unlines_cons_append]
  simp only [layoutSummary, hmulti, Bool.false_eq_true, if_false, Nat.sub_zero, hbody]
  split
  · have hbefore : Text.before? tripleDouble (body ++ tripleDouble) = some body :=
      Text.before?_eq_some.mpr rfl
    rw [← List.append_assoc] at heq
    obtain ⟨init, last, hsplit, hjoined⟩ := Text.exists_eq_unlines (by simp) (by decide) heq.symm
    have hlast := hlines (last ++ tripleDouble) (by rw [hsplit]; simp)
    have hlastPlain : escapeChar ∉ last := by
      have hover : Over (· ≠ escapeChar) (indent ++ body) := by
        have hwrap := over_wrapSummary admits_plain (fun c hc h => hplain (h ▸ hc))
          (fun c hc h => escapeChar_not_mem_of_spaces hindent (h ▸ hc))
          (fun c hc h => escapeChar_not_mem_of_spaces hindent (h ▸ hc)) o.wrapSummaries
        rw [hbody, over_append] at hwrap
        exact over_append.mpr
          ⟨fun c hc h => escapeChar_not_mem_of_spaces hindent (h ▸ hc), hwrap.1⟩
      rw [hjoined, Text.unlines_concat] at hover
      exact fun h => (over_append.mp hover).2 _ h rfl
    rw [hbefore, Option.getD_some]
    refine fits_of_unlines (init ++ [last] ++ [indent ++ tripleDouble]) ?_ ?_
    · intro line hline
      rcases List.mem_append.mp hline with hline | hline
      · rcases List.mem_append.mp hline with hline | hline
        · obtain ⟨hspaces, hnarrow⟩ := hlines line (by rw [hsplit]; simp [hline])
          exact ⟨hspaces, hnarrow.fits⟩
        · rw [List.mem_singleton.mp hline]
          exact ⟨fun c hc => hlast.1 c (List.mem_append_left _ hc),
            (hlast.2.of_quotes hlastPlain).fits⟩
      · rw [List.mem_singleton.mp hline]
        exact fits_closing_quotes hindent _
    · rw [Text.unlines_concat_of_ne_nil (by simp), ← hjoined]
      simp only [List.append_assoc, List.cons_append, List.nil_append]
  · exact fits_of_unlines _ (fun l hl => ⟨(hlines l hl).1, (hlines l hl).2.fits⟩) heq

end Layouts

section Formatting

variable {o : Options} {indent opening contents : Text}

private theorem length_of_overshoots (hindent : Over (· = ' ') indent)
    (hcolumns : 0 < o.wrapSummaries)
    (hescape : escapeChar ∉ normalizeSummary o.nonCap (split o.abbreviations contents).1)
    (h : Overshoots o indent opening contents) : 3 < (openingQuotes o opening).length := by
  have hspaced : Over (· = ' ') (indent ++ [' ', ' ', ' ']) := by simpa using hindent
  have hinitial := isBlank_of_spaces hspaced
  obtain ⟨first, rest, hwrapped⟩ :=
    exists_wrapped _ hescape hcolumns hinitial (isBlank_of_spaces hindent)
  obtain ⟨-, -, hstart⟩ := h
  rw [hwrapped.exists_start_iff (by simp [Text.words_of_blank hinitial]),
    Text.words_blank_append hinitial, Text.width_append (escapeChar_not_mem_of_spaces hspaced)]
    at hstart
  have hfirst := hwrapped.first
  rw [FitsAfter] at hfirst
  omega

private theorem tabCompensation_of_spaces (o : Options) (hindent : Over (· = ' ') indent) :
    tabCompensation o indent = .ok 0 := by
  have hnone : indent.count '\t' = 0 := by
    rw [List.count_eq_zero]
    intro h
    exact absurd (hindent _ h) (by decide)
  simp [tabCompensation, hnone, wordLimit]

private theorem bounded_rewritten (hindent : Over (· = ' ') indent) (hcolumns : 0 < o.wrapSummaries)
    (hopening : opening ∈ canonicalOpenings) (hescape : escapeChar ∉ contents)
    (hfree : QuoteFree contents) :
    Bounded o.wrapSummaries (summaryLines indent (rewritten o indent opening contents 0))
        (Overshoots o indent opening contents) ∧
      (Overshoots o indent opening contents → 3 < (openingQuotes o opening).length) := by
  have hsummary : escapeChar ∉ normalizeSummary o.nonCap (split o.abbreviations contents).1 := by
    have hover := over_split admits_plain (fun c hc h => hescape (h ▸ hc)) o.abbreviations
    exact fun h => over_normalizeSummary admits_plain hover.1 o.nonCap _ h rfl
  have hsummaryFree := quoteFree_normalizeSummary o.nonCap
    ((quoteFree_iff_of_words_append (words_split o.abbreviations contents)).mp hfree).1
  refine ⟨?_, length_of_overshoots hindent hcolumns hsummary⟩
  unfold rewritten Overshoots
  dsimp only
  split
  · rename_i hempty
    have hnone := List.isEmpty_iff.mp hempty
    refine bounded_of_fits ?_ fun h => h.1 hnone
    cases hmulti : o.makeSummaryMultiLine with
    | true => exact fits_multiLine hindent hopening hsummary hcolumns hmulti
    | false => exact fits_oneLine hindent hopening hsummary hcolumns hmulti
  · rename_i hdescription
    have hne : (split o.abbreviations contents).2 ≠ [] := fun h => hdescription (by rw [h]; rfl)
    cases hnewline : o.preSummaryNewline with
    | true =>
      refine bounded_of_fits ?_ fun h => absurd h.2.1 (by simp)
      exact fits_layoutWithDescription hindent hopening hsummary hcolumns hnewline
    | false =>
      simpa only [ne_eq, hne, not_false_eq_true, true_and] using
        bounded_layoutWithDescription hindent hopening hsummary hcolumns hsummaryFree hnewline

private theorem admits_printable : Admits fun c => IsPrintable c ∨ c = '\n' := by
  refine ⟨by decide, by decide, by decide, by decide, by decide, ?_⟩
  have hall : (List.range 127).all (fun n => !decide (32 ≤ n ∨ n = 10) ||
      (Character.uppercase (Char.ofNat n)).all fun d => decide (IsPrintable d ∨ d = '\n')) =
      true := by decide +kernel
  intro c hc d hd
  have hcode : c.toNat < 127 ∧ (32 ≤ c.toNat ∨ c.toNat = 10) := by
    rcases hc with ⟨hlow, hhigh⟩ | rfl
    · exact ⟨by omega, Or.inl hlow⟩
    · decide
  have hupper := List.all_eq_true.mp hall c.toNat (List.mem_range.mpr hcode.1)
  rw [Char.ofNat_toNat, decide_eq_true hcode.2, Bool.not_true, Bool.false_or] at hupper
  exact of_decide_eq_true (List.all_eq_true.mp hupper d hd)

private theorem width_summaryLines {literal output : Text} (hindent : Over (· = ' ') indent)
    (hliteral : Over (fun c => IsPrintable c ∨ c = '\n') literal)
    (hok : (format o indent literal).result = .ok output) :
    ∀ line ∈ summaryLines indent output, width line = line.length := by
  have hspaces : Over (fun c => IsPrintable c ∨ c = '\n') indent := fun c hc => by
    rw [hindent c hc]
    exact Or.inl (by decide)
  have hover : Over (fun c => IsPrintable c ∨ c = '\n') (indent ++ output) :=
    over_append.mpr ⟨hspaces, over_of_format admits_printable hliteral hspaces hok⟩
  intro line hline
  have hmem := (List.takeWhile_prefix _).subset hline
  apply Text.width_eq_length
  intro c hc
  exact (hover.lines line hmem c hc).resolve_right
    fun h => Text.newline_not_mem_lines hmem (h ▸ hc)

end Formatting

/-- A literal that formatting changes has a summary whose lines fit or hold a single word, unless
its opening quotes are longer than the three blanks that were left for them and the first line is
too full for that; then this line alone is up to two columns too wide. -/
theorem summary_fits_iff (o : Options) (indent literal : Text) (hindent : Over (· = ' ') indent)
    (hliteral : escapeChar ∉ literal) (hcolumns : 0 < o.wrapSummaries) :
    ∃ output, (format o indent literal).result = .ok output ∧
      (output ≠ literal → ∃ opening contents, strip literal = .ok ⟨opening, contents⟩ ∧
        Bounded o.wrapSummaries (summaryLines indent output)
          (Overshoots o indent opening contents) ∧
        (Overshoots o indent opening contents → 3 < (openingQuotes o opening).length)) ∧
      (Over (fun c => IsPrintable c ∨ c = '\n') literal →
        ∀ line ∈ summaryLines indent output, width line = line.length) := by
  have htabs := tabCompensation_of_spaces o hindent
  obtain ⟨output, hok⟩ : ∃ output, (format o indent literal).result = .ok output := by
    rw [result_format, htabs]
    split
    · exact ⟨_, rfl⟩
    · split
      · exact ⟨_, rfl⟩
      · split <;> exact ⟨_, rfl⟩
  refine ⟨output, hok, fun hchanged => ?_,
    fun hprintable => width_summaryLines hindent hprintable hok⟩
  obtain ⟨opening, contents, hstrip, hcases⟩ := (format_cases hok).resolve_left hchanged
  obtain ⟨q, hq, inner, htrim, rfl, rfl⟩ := strip_eq_ok hstrip
  have hopening := canonical_mem hq
  have hinner : escapeChar ∉ inner.trim := by
    have hover : Over (· ≠ escapeChar) literal.trim :=
      Over.trim fun c hc h => hliteral (h ▸ hc)
    rw [htrim, over_append, over_append] at hover
    exact fun h => hover.1.2.trim _ h rfl
  refine ⟨q.canonical, inner.trim, hstrip, ?_⟩
  rcases hcases with ⟨hempty, rfl⟩ | ⟨-, hleave, n, hn, rfl⟩
  · rw [hempty]
    have hnone : ¬ Overshoots o indent q.canonical [] := fun h => h.1 rfl
    refine ⟨bounded_of_fits ?_ hnone, fun h => absurd h hnone⟩
    have hquotes : Text.Solid (q.canonical ++ tripleDouble) :=
      Text.solid_append.mpr ⟨canonical_solid hopening, tripleDouble_solid⟩
    refine fits_of_unlines [indent ++ (q.canonical ++ tripleDouble)] ?_ rfl
    intro l hl
    rw [List.mem_singleton.mp hl]
    refine ⟨(spaces_of_indent hindent).append (spaces_of_solid hquotes), Narrow.fits ?_⟩
    refine narrow_indented hindent (Or.inl ?_)
    rw [Text.words_of_solid (by simp [tripleDouble]) hquotes, List.length_singleton]
  · obtain rfl : 0 = n := Except.ok.inj (htabs.symm.trans hn)
    exact bounded_rewritten hindent hcolumns hopening hinner (quoteFree_of_leaveReason hleave)

/-- A raw docstring with a line that is full behind three quotes is one column too wide. -/
theorem raw_summary_overshoots :
    let o : Options := { wrapSummaries := 13 }
    let literal : Text := "r'''aaaa bbbb.\n\nMore text.'''".toList
    let output : Text := "r\"\"\"Aaaa bbbb.\n\nMore text.\n\"\"\"".toList
    Over (· = ' ') [] ∧ escapeChar ∉ literal ∧ 0 < o.wrapSummaries ∧
      (format o [] literal).result = .ok output ∧
      summaryLines [] output = ["r\"\"\"Aaaa bbbb.".toList] ∧
      width "r\"\"\"Aaaa bbbb.".toList = 14 ∧
      Overshoots o [] ('r' :: tripleDouble) "aaaa bbbb.\n\nMore text.".toList := by
  intro o literal output
  have hindent : Over (· = ' ') [] := Text.over_nil
  have hliteral : escapeChar ∉ literal := by decide
  have hok : (format o [] literal).result = .ok output := by decide +kernel
  have hlines : summaryLines [] output = ["r\"\"\"Aaaa bbbb.".toList] := by decide +kernel
  obtain ⟨output', hok', hchanged, -⟩ :=
    summary_fits_iff o [] literal hindent hliteral (by decide)
  obtain rfl : output = output' := Except.ok.inj (hok.symm.trans hok')
  obtain ⟨opening, contents, hstrip, hbounded, -⟩ := hchanged (by decide)
  have hparts : strip literal = .ok ⟨'r' :: tripleDouble, "aaaa bbbb.\n\nMore text.".toList⟩ := by
    rfl
  cases hparts.symm.trans hstrip
  refine ⟨hindent, hliteral, by decide, hok, hlines, by decide, ?_⟩
  by_contra hnot
  have hfits := hbounded.fits.mpr hnot "r\"\"\"Aaaa bbbb.".toList (by rw [hlines]; simp)
  have hwide : ¬ Fits 13 "r\"\"\"Aaaa bbbb.".toList := by
    simp only [Fits]
    decide +kernel
  exact hwide hfits

end DocstringFormat.Docstring
