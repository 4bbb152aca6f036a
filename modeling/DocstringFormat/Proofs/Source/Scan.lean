import DocstringFormat.Proofs.Source.Lexeme
import DocstringFormat.Source.Render

/-!
Where the tokens of a source stand.

A scanned source is a sequence of pieces, each a gap and a token, with the tokens at their places
and on their lines (`Laid`).  Between two lines the scanner remembers what the pieces do not cover
yet: a gap, or a gap and an open string (`Remembers`).  One line keeps this (`readsLine_scanLine`),
and so do all lines (`scanLines_reads`).
-/

set_option autoImplicit false

namespace DocstringFormat.Source

/-- A token and the gap before it. -/
structure Piece where
  gap : Text
  token : Token

/-- The text of a piece. -/
def Piece.text (p : Piece) : Text :=
  p.gap ++ p.token.text

/-- The text of pieces. -/
def spell (ps : List Piece) : Text :=
  ps.flatMap Piece.text

def firstGap : List Piece → Text → Text
  | [], tail => tail
  | p :: _, _ => p.gap

def restOfRow (text rest : Text) : Text :=
  if text.getLast? = some '\n' then [] else firstRow rest

structure Token.Stands (t : Token) (x rest : Text) : Prop where
  start : t.start = place x
  stop : t.stop = stopPlace x t.text
  line : t.line = lastRow x ++ t.text ++ restOfRow t.text rest

def startsCode : Text → Bool
  | [] => false
  | c :: rest => !isSpacing c && !isCodeless (c :: rest)

/-- The text of a line break after the start of a row: a line feed, the end of a source without one,
or a carriage return and what follows it. -/
def IsBreak (row text rest : Text) : Prop :=
  text = ['\n'] ∨ (row ≠ [] ∧ text = [] ∧ rest = []) ∨ text.head? = some '\r'

/-- What the kind of a token says about its text and its surroundings, inside `depth` brackets;
`x` is the text before the gap. -/
def Token.Lawful (t : Token) (depth : Nat) (x gap rest : Text) : Prop :=
  match t.kind with
  | .newline => depth = 0 ∧ IsBreak (lastRow (x ++ gap)) t.text rest
  | .nl => IsBreak (lastRow (x ++ gap)) t.text rest ∧ (0 < depth ∨ lastRow x = [] ∨ '#' ∈ lastRow x)
  | .indent => t.text ≠ [] ∧ (∀ c ∈ t.text, isSpacing c = true) ∧ startsCode rest = true
  | .dedent => t.text = [] ∧ startsCode rest = true
  | kind => Lexical kind t.text rest

/-- A piece stands between `x` and `rest`, inside `depth` brackets. -/
structure Piece.Fits (p : Piece) (depth : Nat) (x rest : Text) : Prop where
  gap : isGap p.gap = true
  stands : p.token.Stands (x ++ p.gap) rest
  lawful : p.token.Lawful depth x p.gap rest

def Token.depthAfter (depth : Nat) (t : Token) : Nat :=
  depthAfterToken depth t.kind (t.text.headD ' ')

/-- The pieces stand one after another between `x` and `rest`; the brackets they open and close
lead from the first depth to the last. -/
inductive Laid : Nat → Text → List Piece → Text → Nat → Prop
  | nil {depth : Nat} {x rest : Text} : Laid depth x [] rest depth
  | cons {depth last : Nat} {x rest : Text} {p : Piece} {ps : List Piece} :
      p.Fits depth x (spell ps ++ rest) →
      Laid (p.token.depthAfter depth) (x ++ p.text) ps rest last →
      Laid depth x (p :: ps) rest last

structure OpenString.Opens (p : OpenString) (x rest : Text) : Prop where
  start : p.start = place x
  lines : p.lines = lastRow x ++ p.text
  quote : IsOpeningQuote p.quote
  row : p.text.getLast? = some '\n' ∨ p.text ≠ [] ∧ rest = []

/-- What the scanner remembers of a text `x ++ tail ++ pend` whose tokens end with `x`: the gap
`tail`, and an open string if `pend` is not empty. -/
structure Remembers (continued : Bool) (pending : Option OpenString) (x tail pend rest : Text) :
    Prop where
  gap : isGap tail = true
  opened : ∀ p, pending = some p → pend = p.text ∧ p.Opens (x ++ tail) rest ∧ continued = false
  closed : pending = none → pend = []
  joined : continued = true → isJoined tail = true
  ended : continued = false → pending = none → tail.getLast? ≠ some '\n'

/-- Lines that follow one another, `rest` after the last. -/
def Rows : List Text → Text → Prop
  | [], _ => True
  | l :: ls, rest => l ≠ [] ∧ IsRow l (ls.flatten ++ rest) ∧ Rows ls rest

theorem OpenString.Opens.ne_nil {p : OpenString} {x rest : Text} (h : p.Opens x rest) :
    p.text ≠ [] := by
  rcases h.row with hlast | ⟨hne, -⟩
  · rintro hnil
    rw [hnil] at hlast
    cases hlast
  · exact hne

@[simp] theorem spell_nil : spell [] = [] := rfl

@[simp] theorem spell_cons (p : Piece) (ps : List Piece) :
    spell (p :: ps) = p.gap ++ p.token.text ++ spell ps := rfl

@[simp] theorem spell_append (ps qs : List Piece) : spell (ps ++ qs) = spell ps ++ spell qs :=
  List.flatMap_append

theorem Laid.append {depth mid last : Nat} {x rest : Text} {ps qs : List Piece}
    (hps : Laid depth x ps (spell qs ++ rest) mid) (hqs : Laid mid (x ++ spell ps) qs rest last) :
    Laid depth x (ps ++ qs) rest last := by
  induction ps generalizing depth x with
  | nil =>
    cases hps
    simpa using hqs
  | cons p ps ih =>
    cases hps with
    | cons hfits hrest =>
      refine .cons ?_ (ih hrest ?_)
      · simpa using hfits
      · simpa [Piece.text] using hqs

theorem isSpacing_utf8Size {c : Char} (h : isSpacing c = true) : c.utf8Size = 1 := by
  simp only [isSpacing, Bool.or_eq_true, beq_iff_eq] at h
  rcases h with (rfl | rfl) | rfl <;> rfl

theorem IsRow.drop {y z rest : Text} (h : IsRow (y ++ z) rest) (hy : '\n' ∉ y) : IsRow z rest := by
  rcases h with ⟨hmem, hrest⟩ | ⟨u, hu, hmem⟩
  · exact Or.inl ⟨fun hz => hmem (List.mem_append_right y hz), hrest⟩
  · right
    rcases List.eq_nil_or_concat' z with rfl | ⟨v, d, rfl⟩
    · exfalso
      rw [List.append_nil] at hu
      apply hy
      rw [hu]
      simp
    · rw [← List.append_assoc] at hu
      obtain ⟨hinit, hlast⟩ := List.append_inj' hu rfl
      refine ⟨v, by rw [hlast], ?_⟩
      intro hv
      apply hmem
      rw [← hinit]
      exact List.mem_append_right y hv

private theorem stands_tokenAt (kind : TokenKind) {row column : Nat} {line x text y rest : Text}
    (hrow : IsRow (text ++ y) rest) (hr : row = (place x).row) (hc : column = (place x).column)
    (hl : line = lastRow x ++ (text ++ y)) :
    (tokenAt kind text row column line).Stands x (y ++ rest) := by
  subst hr hc hl
  by_cases hmem : '\n' ∈ text
  · have hlast : text.getLast? = some '\n' := by
      by_contra hne
      exact newline_not_mem_of_isRow hrow hne hmem
    obtain ⟨u, rfl⟩ := List.getLast?_eq_some_iff.mp hlast
    have hu : '\n' ∉ u ∧ y = [] := by
      rcases hrow with ⟨hrow, -⟩ | ⟨v, hv, hmemv⟩
      · exact absurd (List.mem_append_left y hmem) hrow
      · rcases List.eq_nil_or_concat' y with rfl | ⟨w, d, rfl⟩
        · rw [List.append_nil] at hv
          have hinit := (List.append_inj' hv rfl).1
          exact ⟨hinit ▸ hmemv, rfl⟩
        · rw [← List.append_assoc] at hv
          have hinit := (List.append_inj' hv rfl).1
          exact absurd (hinit ▸ List.mem_append_left w hmem) hmemv
    obtain ⟨hu, rfl⟩ := hu
    refine ⟨rfl, ?_, ?_⟩
    · rw [tokenAt, stopPlace_newline, place_append_of_not_mem x hu, Text.size_append]
      rfl
    · simp [tokenAt, restOfRow]
  · have hlast : text.getLast? ≠ some '\n' := fun h => hmem (List.mem_of_getLast? h)
    refine ⟨rfl, ?_, ?_⟩
    · rw [tokenAt, stopPlace_of_not_mem x hmem, place_append_of_not_mem x hmem]
    · simp only [tokenAt]
      rw [restOfRow, if_neg hlast, firstRow_of_isRow (hrow.drop hmem), List.append_assoc]

private theorem stands_tokenAt_end (kind : TokenKind) {row column : Nat} {line x text rest : Text}
    (hrow : IsRow text rest) (hr : row = (place x).row) (hc : column = (place x).column)
    (hl : line = lastRow x ++ text) : (tokenAt kind text row column line).Stands x rest := by
  rw [← List.append_nil text] at hrow hl
  exact stands_tokenAt kind hrow hr hc hl

private theorem IsRow.eq_of_newline {y rest : Text} (h : IsRow ('\n' :: y) rest) : y = [] := by
  rcases h with ⟨hmem, -⟩ | ⟨u, hu, hmem⟩
  · simp at hmem
  · cases u with
    | nil => simpa using hu
    | cons c u =>
      have hc : '\n' = c := (List.cons.inj hu).1
      subst hc
      simp at hmem

private theorem IsRow.eq_nil_of_not_mem {y rest : Text} (h : IsRow y rest) (hy : '\n' ∉ y) :
    rest = [] := by
  rcases h with ⟨-, hrest⟩ | ⟨u, rfl, -⟩
  · exact hrest
  · simp at hy

theorem IsRow.getLast? {y rest : Text} (h : IsRow y rest) (hne : y ≠ []) :
    y.getLast? = some '\n' ∨ y ≠ [] ∧ rest = [] := by
  rcases h with ⟨-, hrest⟩ | ⟨u, rfl, -⟩
  · exact Or.inr ⟨hne, hrest⟩
  · left
    simp

private theorem eq_break_of_isRow {y rest : Text} (hrow : IsRow ('\\' :: y) rest)
    (h : startsWithBreak y = true) : y = ['\n'] ∨ y = ['\r', '\n'] := by
  unfold startsWithBreak at h
  split at h
  · rename_i z
    have hz : IsRow ('\n' :: z) rest := IsRow.drop (y := ['\\']) hrow (by simp)
    left
    rw [hz.eq_of_newline]
  · rename_i z
    have hz : IsRow ('\n' :: z) rest := IsRow.drop (y := ['\\', '\r']) hrow (by simp)
    right
    rw [hz.eq_of_newline]
  · cases h

private theorem lawful_of_lexical {t : Token} {depth : Nat} {x gap rest : Text}
    (h : Lexical t.kind t.text rest) : t.Lawful depth x gap rest := by
  unfold Token.Lawful
  cases hkind : t.kind <;> rw [hkind] at h <;> first | exact h | exact h.2.elim

structure LineScan.Reads (l : LineScan) (depth : Nat) (x gap y rest : Text) (ps : List Piece)
    (tail pend : Text) : Prop where
  tokens : l.tokens = ps.map Piece.token
  text : gap ++ y = spell ps ++ tail ++ pend
  laid : Laid depth x ps (tail ++ pend ++ rest) l.depth
  remembers : Remembers l.continued l.pending (x ++ spell ps) tail pend rest
  first : gap <+: firstGap ps tail

/-- The pieces of one row: the first gap goes on with the gap before, and no line breaks are added
but at the end of a continued line. -/
structure WithinRow (gap : Text) (ps : List Piece) (continued : Bool) (tail : Text) : Prop where
  first : ∃ h, firstGap ps tail = gap ++ h ∧ ('\n' ∈ h → ps = [] ∧ continued = true)
  later : ∀ p ∈ ps.tail, '\n' ∉ p.gap
  left : ps ≠ [] → continued = false → '\n' ∉ tail

/-- Gaps without line feeds, and no line feed left over unless the line is continued. -/
def NewlineFree (ps : List Piece) (continued : Bool) (tail : Text) : Prop :=
  (∀ p ∈ ps, '\n' ∉ p.gap) ∧ (continued = false → '\n' ∉ tail)

theorem WithinRow.newlineFree {gap tail : Text} {ps : List Piece} {continued : Bool}
    (h : WithinRow gap ps continued tail) (hgap : '\n' ∉ gap) : NewlineFree ps continued tail := by
  obtain ⟨r, hfirst, hr⟩ := h.first
  cases ps with
  | nil =>
    refine ⟨by simp, ?_⟩
    rintro rfl hmem
    change tail = gap ++ r at hfirst
    rw [hfirst] at hmem
    rcases List.mem_append.mp hmem with hmem | hmem
    · exact hgap hmem
    · cases (hr hmem).2
  | cons p ps =>
    refine ⟨?_, h.left (by simp)⟩
    intro q hq
    rcases List.mem_cons.mp hq with rfl | hq
    · intro hmem
      change q.gap = gap ++ r at hfirst
      rw [hfirst] at hmem
      rcases List.mem_append.mp hmem with hmem | hmem
      · exact hgap hmem
      · cases (hr hmem).1
    · exact h.later q hq

private theorem NewlineFree.withinRow {tail : Text} {ps : List Piece} {continued : Bool}
    (h : NewlineFree ps continued tail) : WithinRow [] ps continued tail := by
  refine ⟨⟨firstGap ps tail, rfl, ?_⟩, fun p hp => h.1 p (List.mem_of_mem_tail hp), fun _ => h.2⟩
  intro hmem
  cases ps with
  | nil =>
    refine ⟨rfl, ?_⟩
    by_contra hcontinued
    exact h.2 (by simpa using hcontinued) hmem
  | cons p ps => exact absurd hmem (h.1 p (by simp))

private theorem newlineFree_nil (continued : Bool) : NewlineFree [] continued [] :=
  ⟨by simp, by simp⟩

private theorem NewlineFree.withinRow_cons {gap tail : Text} {p : Piece} {ps : List Piece}
    {continued : Bool} (h : NewlineFree ps continued tail) (hp : p.gap = gap) :
    WithinRow gap (p :: ps) continued tail :=
  ⟨⟨[], by simp [firstGap, hp], by simp⟩, h.1, fun _ => h.2⟩

private theorem scanFrom_reads {row column depth : Nat} {line x gap y rest : Text}
    (hgap : isGap gap = true) (hstart : y = [] → gap.getLast? ≠ some '\n') (hrow : IsRow y rest)
    (hr : row = (place (x ++ gap)).row)
    (hc : column = (place (x ++ gap)).column) (hl : line = lastRow (x ++ gap) ++ y) :
    ∃ ps tail pend, (scanFrom row line column depth y).Reads depth x gap y rest ps tail pend ∧
      WithinRow gap ps (scanFrom row line column depth y).continued tail := by
  -- Along a row the gap before the next token grows; the token takes it and leaves none.
  fun_induction scanFrom row line column depth y generalizing x gap with
  | case1 column depth =>
    exact ⟨[], gap, [], ⟨rfl, by simp, .nil,
      ⟨hgap, by simp, fun _ => rfl, by simp, fun _ _ => hstart rfl⟩, List.prefix_refl gap⟩,
      ⟨[], by simp [firstGap], by simp⟩, by simp, by simp⟩
  | case2 column depth c y hspace ih =>
    have hc1 := isSpacing_utf8Size hspace
    have hne : '\n' ∉ [c] := by
      simpa using (isSpacing_ne_newline hspace).symm
    have hspacing : isGap [c] = true := isGap_of_spacing (by simpa using hspace)
    have hlast : (gap ++ [c]).getLast? ≠ some '\n' := by
      simpa using isSpacing_ne_newline hspace
    obtain ⟨ps, tail, pend, h, hrows⟩ := ih (isGap_append hgap hspacing) (fun _ => hlast)
      (IsRow.drop (y := [c]) hrow hne)
      (by rw [← List.append_assoc, place_append_of_not_mem _ hne]; exact hr)
      (by rw [← List.append_assoc, place_append_of_not_mem _ hne, hc]; simp [hc1])
      (by rw [← List.append_assoc, lastRow_append_of_not_mem _ hne, hl]; simp)
    refine ⟨ps, tail, pend, ⟨h.tokens, by simpa using h.text, h.laid, h.remembers, ?_⟩, ?_⟩
    · exact (List.prefix_append gap [c]).trans h.first
    · obtain ⟨r, hfirst, hr⟩ := hrows.first
      refine ⟨⟨c :: r, by rw [hfirst, List.append_assoc]; rfl, ?_⟩, hrows.later, hrows.left⟩
      intro hmem
      rcases List.mem_cons.mp hmem with hc | hmem
      · exact absurd hc (isSpacing_ne_newline hspace).symm
      · exact hr hmem
  | case3 column depth c y hspace hlex =>
    have hbreak : IsBreak (lastRow (x ++ gap)) (c :: y) rest := by
      rcases lexeme_eq_lineEnd hlex with rfl | rfl
      · rw [hrow.eq_of_newline]
        exact Or.inl rfl
      · exact Or.inr (Or.inr rfl)
    refine ⟨[⟨gap, tokenAt (if 0 < depth then .nl else .newline) (c :: y) row column line⟩], [], [],
      ⟨rfl, by simp [tokenAt], .cons ⟨hgap, ?_, ?_⟩ ?_,
      ⟨rfl, by simp, fun _ => rfl, by simp, by simp⟩, List.prefix_refl gap⟩, ?_⟩
    · exact stands_tokenAt_end _ hrow hr hc hl
    · by_cases hdepth : 0 < depth
      · simp only [tokenAt, if_pos hdepth]
        exact ⟨hbreak, Or.inl hdepth⟩
      · simp only [tokenAt, if_neg hdepth]
        exact ⟨by omega, hbreak⟩
    · have hafter : Token.depthAfter depth
          (tokenAt (if 0 < depth then .nl else .newline) (c :: y) row column line) = depth := by
        by_cases hdepth : 0 < depth <;> simp [Token.depthAfter, tokenAt, depthAfterToken, hdepth]
      rw [hafter]
      exact .nil
    · exact (newlineFree_nil _).withinRow_cons rfl
  | case4 column depth c y hspace hlex =>
    obtain ⟨rfl, hbreak⟩ := lexeme_eq_continuation hlex
    have hjoint : isGap ('\\' :: y) = true ∧ isJoined (gap ++ '\\' :: y) = true := by
      rcases eq_break_of_isRow hrow hbreak with rfl | rfl
      · exact ⟨rfl, by simp [isJoined]⟩
      · exact ⟨rfl, by simp [isJoined]⟩
    exact ⟨[], gap ++ '\\' :: y, [], ⟨rfl, by simp, .nil,
      ⟨isGap_append hgap hjoint.1, by simp, fun _ => rfl, fun _ => hjoint.2, by simp⟩,
      List.prefix_append gap _⟩, ⟨'\\' :: y, rfl, fun _ => ⟨rfl, rfl⟩⟩, by simp, by simp⟩
  | case5 column depth c y hspace quote hlex =>
    -- An open string is no piece yet: it is left over behind the gap.
    obtain ⟨n, hopening, -⟩ := lexeme_eq_openString hlex
    refine ⟨[], gap, c :: y, ⟨rfl, by simp, .nil, ⟨hgap, ?_, by simp, by simp, by simp⟩,
      List.prefix_refl gap⟩, ⟨[], by simp [firstGap], by simp⟩, by simp, by simp⟩
    rintro p hp
    cases hp
    refine ⟨rfl, ⟨?_, ?_, (stringOpening?_eq_some hopening).1, hrow.getLast? (by simp)⟩, rfl⟩
    · rw [hr, hc, spell_nil, List.append_nil]
    · simpa using hl
  | case6 column depth c y hspace kind more hlex text =>
    rename_i ih
    obtain ⟨hlexical, hmem⟩ := lexical_lexeme hrow hlex
    have hsplit : c :: y = (c :: y.take more) ++ y.drop more := by simp
    rw [hsplit] at hrow hl
    have hrest := hrow.drop hmem
    obtain ⟨ps, tail, pend, h, hrows⟩ := @ih (x ++ gap ++ (c :: y.take more)) [] rfl (by simp) hrest
      (by rw [List.append_nil, place_append_of_not_mem _ hmem]; exact hr)
      (by rw [List.append_nil, place_append_of_not_mem _ hmem, hc])
      (by rw [List.append_nil, lastRow_append_of_not_mem _ hmem, hl, List.append_assoc])
    have htext : spell ps ++ (tail ++ pend ++ rest) = y.drop more ++ rest := by
      have htext := h.text
      rw [List.nil_append] at htext
      rw [htext]
      simp
    refine ⟨⟨gap, tokenAt kind (c :: y.take more) row column line⟩ :: ps, tail, pend, ⟨?_, ?_,
      .cons ⟨hgap, ?_, ?_⟩ ?_, ?_, List.prefix_refl gap⟩, ?_⟩
    · exact congrArg (tokenAt kind text row column line :: ·) h.tokens
    · have htext := h.text
      rw [List.nil_append, List.append_assoc] at htext
      rw [spell_cons, List.append_assoc, List.append_assoc, List.append_assoc, ← htext, hsplit]
      rfl
    · rw [htext]
      exact stands_tokenAt _ hrow hr hc hl
    · rw [htext]
      exact lawful_of_lexical hlexical
    · have hlaid := h.laid
      rw [List.append_assoc x] at hlaid
      exact hlaid
    · have hremembers := h.remembers
      rw [List.append_assoc x, List.append_assoc x] at hremembers
      exact hremembers
    · exact (hrows.newlineFree (by simp)).withinRow_cons rfl

def LineScan.prepend (before : List Token) (l : LineScan) : LineScan :=
  { l with tokens := before ++ l.tokens }

theorem LineScan.Reads.prepend {l : LineScan} {depth mid : Nat} {x gap y g z rest tail pend : Text}
    {ps qs : List Piece} {before : List Token} (hbefore : before = qs.map Piece.token)
    (hqs : Laid depth x qs (g ++ z ++ rest) mid)
    (h : l.Reads mid (x ++ spell qs) g z rest ps tail pend) (htext : gap ++ y = spell qs ++ g ++ z)
    (hfirst : gap <+: firstGap qs g) :
    (l.prepend before).Reads depth x gap y rest (qs ++ ps) tail pend := by
  have hps := h.text
  refine ⟨?_, ?_, ?_, ?_, ?_⟩
  · simp [LineScan.prepend, h.tokens, hbefore]
  · rw [htext, List.append_assoc, hps, spell_append]
    simp only [List.append_assoc]
  · refine Laid.append ?_ h.laid
    rw [hps] at hqs
    simpa using hqs
  · have hremembers := h.remembers
    rw [List.append_assoc, ← spell_append] at hremembers
    exact hremembers
  · cases qs with
    | nil => exact hfirst.trans h.first
    | cons q qs => exact hfirst

def Scanner.lineScan (tokens : List Token) (st : Scanner) : LineScan :=
  ⟨tokens, st.depth, st.continued, st.pending⟩

def ReadsLine (st st' : Scanner) (tokens : List Token) (x tail pend line rest : Text) : Prop :=
  ∃ ps tail' pend',
    (st'.lineScan tokens).Reads st.depth x tail (pend ++ line) rest ps tail' pend' ∧
      WithinRow tail ps st'.continued tail'

section Strings

variable {st : Scanner} {p : OpenString} {row : Nat} {line x tail pend rest : Text}

private theorem stands_of_opens (kind : TokenKind) {after head r : Text} (hopens : p.Opens x after)
    (hend : lastRow (x ++ p.text) = []) (hr : row = (place (x ++ p.text)).row)
    (hrow : IsRow (head ++ r) rest) (hne : head ≠ []) :
    Token.Stands ⟨kind, p.text ++ head, p.start, ⟨row, head.size⟩, p.lines ++ (head ++ r)⟩ x
      (r ++ rest) := by
  have hlast := List.getLast?_append_of_ne_nil p.text hne
  have hzero : 0 = (place (x ++ p.text)).column := by simp [hend]
  have hwhole : head ++ r = lastRow (x ++ p.text) ++ (head ++ r) := by rw [hend, List.nil_append]
  have hstands := stands_tokenAt kind hrow hr hzero hwhole
  have hstop := hstands.stop
  have hline := hstands.line
  simp only [tokenAt, Nat.zero_add] at hstop hline
  refine ⟨hopens.start, ?_, ?_⟩
  · rw [hstop, stopPlace, stopPlace, hlast, List.dropLast_append_of_ne_nil hne]
    simp only [List.append_assoc]
  · rw [hend, List.nil_append] at hline
    rw [hopens.lines, hline, restOfRow, restOfRow, hlast]
    simp only [List.append_assoc]

private theorem not_joined_of_endsInBackslash {text : Text}
    (htext : text.getLast? = some '\n' ∨ text ≠ [] ∧ line ++ rest = [])
    (hline : line.getLast? = some '\n') (h : endsInBackslash line = false) :
    ¬ ['\\', '\n'] <:+ text ++ line := by
  rintro ⟨u, hu⟩
  obtain ⟨v, rfl⟩ := List.getLast?_eq_some_iff.mp hline
  have hinit : u ++ ['\\'] = text ++ v := by
    have hsplit : (u ++ ['\\']) ++ ['\n'] = (text ++ v) ++ ['\n'] := by simpa using hu
    exact (List.append_inj' hsplit rfl).1
  rcases List.eq_nil_or_concat' v with rfl | ⟨w, d, rfl⟩
  · rcases htext with hlast | ⟨-, hnil⟩
    · rw [List.append_nil] at hinit
      rw [← hinit] at hlast
      simp at hlast
    · simp at hnil
  · rw [← List.append_assoc] at hinit
    have hd : d = '\\' := by
      have hlast := (List.append_inj' hinit rfl).2
      simpa using hlast.symm
    subst hd
    revert h
    simp [endsInBackslash, Text.dropLineEnding, Text.dropEndWhile]

private theorem readsLine_scanInString (hp : st.pending = some p)
    (hst : Remembers st.continued st.pending x tail pend (line ++ rest))
    (hend : lastRow (x ++ tail ++ pend) = []) (hr : row = (place (x ++ tail ++ pend)).row)
    (hrow : IsRow line rest) (hne : line ≠ []) :
    ReadsLine st (scanInString st p row line).2 (scanInString st p row line).1 x tail pend line
      rest := by
  obtain ⟨rfl, hopens, hcontinued⟩ := hst.opened p hp
  unfold scanInString
  split
  · rename_i n hn
    obtain ⟨body, r, rfl, rfl⟩ := closingLength?_eq_some hn
    rw [List.take_left, List.drop_left]
    obtain ⟨q, hq, hquote⟩ := hopens.quote.getLast?
    have hheadne : body ++ p.quote ≠ [] := by
      simp [hopens.quote.ne_nil]
    have hheadlast : (body ++ p.quote).getLast? = some q := by
      rw [List.getLast?_append_of_ne_nil body hopens.quote.ne_nil, hq]
    have hhead : '\n' ∉ body ++ p.quote := by
      apply newline_not_mem_of_isRow hrow
      rw [hheadlast]
      simpa using hquote.ne_newline
    have hstands := stands_of_opens .string hopens hend hr hrow hheadne
    have hlawful : Lexical .string (p.text ++ (body ++ p.quote)) (r ++ rest) := by
      refine ⟨by simp [hopens.quote.ne_nil], q, ?_, hquote⟩
      rw [List.getLast?_append_of_ne_nil p.text hheadne, hheadlast]
    have hx : x ++ tail ++ (p.text ++ (body ++ p.quote)) =
        x ++ tail ++ p.text ++ (body ++ p.quote) := by
      simp only [List.append_assoc]
    obtain ⟨ps, tail', pend', h, hrows⟩ := @scanFrom_reads row (body ++ p.quote).size st.depth
      (body ++ p.quote ++ r) (x ++ tail ++ (p.text ++ (body ++ p.quote))) [] r rest rfl (by simp)
      (hrow.drop hhead)
      (by rw [List.append_nil, hx, place_append_of_not_mem _ hhead]; exact hr)
      (by rw [List.append_nil, hx, place_append_of_not_mem _ hhead, place_column, hend]; simp)
      (by rw [List.append_nil, hx, lastRow_append_of_not_mem _ hhead, hend]; rfl)
    have hlaid : Laid st.depth x [⟨tail, ⟨.string, p.text ++ (body ++ p.quote), p.start,
        ⟨row, (body ++ p.quote).size⟩, p.lines ++ (body ++ p.quote ++ r)⟩⟩] ([] ++ r ++ rest)
        st.depth :=
      .cons ⟨hst.gap, hstands, hlawful⟩ .nil
    refine ⟨_ :: ps, tail', pend', LineScan.Reads.prepend rfl hlaid ?_ ?_ (List.prefix_refl tail), ?_⟩
    · simpa using h
    · simp
    · exact (hrows.newlineFree (by simp)).withinRow_cons rfl
  · split
    · rename_i hstray
      have hstands := stands_of_opens .errorToken hopens hend hr (r := []) (by simpa using hrow) hne
      simp only [List.append_nil, List.nil_append] at hstands
      have hlawful : Lexical .errorToken (p.text ++ line) rest := by
        refine ⟨by simp [hne], ?_⟩
        by_cases hnewline : line.getLast? = some '\n'
        · refine Or.inr (Or.inl ⟨?_, ?_, ?_⟩)
          · rw [List.getLast?_append_of_ne_nil p.text hne, hnewline]
          · refine not_joined_of_endsInBackslash hopens.row hnewline ?_
            simpa using hstray.2
          · have hline := List.length_pos_iff.mpr hne
            have htext := List.length_pos_iff.mpr hopens.ne_nil
            rw [List.length_append]
            omega
        · have hrest := ((hrow.getLast? hne).resolve_left hnewline).2
          rw [← List.getLast?_append_of_ne_nil p.text hne] at hnewline
          exact Or.inr (Or.inr ⟨hnewline, hrest⟩)
      refine ⟨[⟨tail, _⟩], [], [], ⟨rfl, by simp, .cons ⟨hst.gap, hstands, hlawful⟩ .nil,
        ⟨rfl, by simp [Scanner.lineScan], fun _ => rfl, ?_, by simp⟩, List.prefix_refl tail⟩, ?_⟩
      · simp [Scanner.lineScan, hcontinued]
      · exact (newlineFree_nil _).withinRow_cons rfl
    · refine ⟨[], tail, p.text ++ line, ⟨rfl, rfl, .nil, ?_, List.prefix_refl tail⟩, ?_⟩
      · refine ⟨hst.gap, ?_, by simp [Scanner.lineScan], by simp [Scanner.lineScan, hcontinued],
          by simp [Scanner.lineScan]⟩
        intro p' hp'
        cases hp'
        refine ⟨rfl, ⟨?_, ?_, hopens.quote, ?_⟩, hcontinued⟩
        · simpa using hopens.start
        · simp [hopens.lines]
        · rw [List.getLast?_append_of_ne_nil p.text hne]
          rcases hrow.getLast? hne with hnewline | ⟨-, hrest⟩
          · exact Or.inl hnewline
          · exact Or.inr ⟨by simp [hne], hrest⟩
      · exact ⟨⟨[], by simp [firstGap], by simp⟩, by simp, by simp⟩

end Strings

section FreshLines

variable {st : Scanner} {row : Nat} {x lead y rest : Text}

private theorem dropLineEnding_cons {c : Char} (hc : (c == '\r' || c == '\n') = false) (s : Text) :
    Text.dropLineEnding (c :: s) = c :: Text.dropLineEnding s := by
  simp only [Text.dropLineEnding, Text.dropEndWhile, List.reverse_cons, List.dropWhile_append]
  split
  · rename_i hempty
    have hnil : s.reverse.dropWhile (fun c => c == '\r' || c == '\n') = [] := by
      simpa using hempty
    rw [hnil, List.dropWhile_cons_of_neg (by simp [hc])]
    rfl
  · simp

theorem exists_lineEnding (s : Text) :
    ∃ ending, s = Text.dropLineEnding s ++ ending ∧ ∀ c ∈ ending, c = '\n' ∨ c = '\r' := by
  refine ⟨(s.reverse.takeWhile fun c => c == '\r' || c == '\n').reverse, ?_, ?_⟩
  · exact (Text.dropEndWhile_append _ s).symm
  · intro c hc
    have hc := List.all_eq_true.mp List.all_takeWhile c (List.mem_reverse.mp hc)
    simpa [or_comm] using hc

private theorem isBreak_of_isRow (hrow : IsRow y rest) (hne : lead ++ y ≠ [])
    (h : ∀ c, y.head? = some c → c = '\n' ∨ c = '\r') : IsBreak lead y rest := by
  cases y with
  | nil => exact Or.inr (Or.inl ⟨by simpa using hne, rfl, hrow.eq_nil_of_not_mem (by simp)⟩)
  | cons c y =>
    rcases h c rfl with rfl | rfl
    · rw [hrow.eq_of_newline]
      exact Or.inl rfl
    · exact Or.inr (Or.inr rfl)

private theorem readsLine_emptyLine (hst : st.continued = false ∧ st.pending = none)
    (hend : lastRow x = []) (hr : row = (place x).row) (hlead : ∀ c ∈ lead, isSpacing c = true)
    (hrow : IsRow (lead ++ y) rest) (hne : lead ++ y ≠ []) (hy : isCodeless y = true) :
    ReadsLine st st (emptyLineTokens row lead.size y (lead ++ y)) x [] [] (lead ++ y) rest := by
  have hmem : '\n' ∉ lead := fun h => isSpacing_ne_newline (hlead _ h) rfl
  have hrest := hrow.drop hmem
  have hgap := isGap_of_spacing hlead
  have hremembers : ∀ z, Remembers st.continued st.pending z [] [] rest := by
    intro z
    exact ⟨rfl, by simp [hst.2], fun _ => rfl, by simp [hst.1], by simp⟩
  have hrow' : row = (place (x ++ lead)).row := by
    rw [place_append_of_not_mem x hmem]
    exact hr
  have hcolumn : lead.size = (place (x ++ lead)).column := by
    rw [place_append_of_not_mem x hmem, place_column, hend]
    simp
  have hline : lead ++ y = lastRow (x ++ lead) ++ y := by
    rw [lastRow_append_of_not_mem x hmem, hend]
    rfl
  unfold emptyLineTokens
  split
  · rename_i r
    have hlex : lexeme '#' r = .token .comment (Text.dropLineEnding r).length := by
      simp [lexeme]
    obtain ⟨hlexical, hcomment⟩ := lexical_lexeme hrest hlex
    obtain ⟨ending, hending, hall⟩ := exists_lineEnding r
    have htake : r.take (Text.dropLineEnding r).length = Text.dropLineEnding r := by
      have h := congrArg (List.take (Text.dropLineEnding r).length) hending
      rw [h, List.take_left]
    have hdrop : r.drop (Text.dropLineEnding r).length = ending := by
      have h := congrArg (List.drop (Text.dropLineEnding r).length) hending
      rw [h, List.drop_left]
    rw [htake] at hlexical hcomment
    rw [hdrop] at hlexical
    have hsplit : '#' :: r = '#' :: Text.dropLineEnding r ++ ending := by
      rw [List.cons_append, ← hending]
    rw [hsplit] at hrest hline
    have hlast := hrest.drop hcomment
    have hbreak : IsBreak (lead ++ ('#' :: Text.dropLineEnding r)) ending rest :=
      isBreak_of_isRow hlast (by simp) fun c hc => hall c (List.mem_of_head? hc)
    have hhash : lastRow (x ++ (lead ++ ('#' :: Text.dropLineEnding r))) =
        lead ++ ('#' :: Text.dropLineEnding r) := by
      rw [← List.append_assoc, lastRow_append_of_not_mem _ hcomment,
        lastRow_append_of_not_mem x hmem, hend]
      rfl
    rw [dropLineEnding_cons (by decide), hsplit]
    simp only [List.length_cons, List.cons_append, List.drop_succ_cons, List.drop_left]
    refine ⟨[⟨lead, _⟩, ⟨[], _⟩], [], [], ⟨rfl, ?_, .cons ⟨hgap, ?_, ?_⟩ (.cons ⟨rfl, ?_, ?_⟩ .nil),
      hremembers _, List.nil_prefix⟩, ?_⟩
    · simp
    · have hstands := stands_tokenAt .comment hrest hrow' hcolumn hline
      simpa [tokenAt] using hstands
    · apply lawful_of_lexical
      simpa [tokenAt] using hlexical
    · have hplace : place (x ++ (lead ++ ('#' :: Text.dropLineEnding r)) ++ []) =
          ⟨row, lead.size + Text.size ('#' :: Text.dropLineEnding r)⟩ := by
        rw [List.append_nil, ← List.append_assoc, place_append_of_not_mem _ hcomment, hrow', hcolumn]
      refine stands_tokenAt_end .nl hlast (congrArg Place.row hplace).symm
        (congrArg Place.column hplace).symm ?_
      show _ = lastRow (x ++ (lead ++ ('#' :: Text.dropLineEnding r)) ++ []) ++ ending
      rw [List.append_nil, hhash]
      simp
    · have hhash' : lastRow (x ++ (lead ++ ('#' :: Text.dropLineEnding r)) ++ []) =
          lead ++ ('#' :: Text.dropLineEnding r) := by
        rw [List.append_nil, hhash]
      refine ⟨?_, Or.inr (Or.inr ?_)⟩
      · show IsBreak (lastRow (x ++ (lead ++ ('#' :: Text.dropLineEnding r)) ++ [])) ending rest
        rw [hhash']
        exact hbreak
      · show '#' ∈ lastRow (x ++ (lead ++ ('#' :: Text.dropLineEnding r)))
        rw [hhash]
        simp
    · exact NewlineFree.withinRow ⟨by simpa using hmem, by simp⟩
  · rename_i hhash
    have hbreak : IsBreak lead y rest := by
      apply isBreak_of_isRow hrest hne
      intro c hc
      obtain ⟨r, rfl⟩ := List.head?_eq_some_iff.mp hc
      have hc' : c ≠ '#' := fun h => hhash r (by rw [h])
      simpa [isCodeless, hc'] using hy
    refine ⟨[⟨lead, _⟩], [], [], ⟨rfl, by simp, .cons ⟨hgap, ?_, ?_⟩ .nil,
      hremembers _, List.nil_prefix⟩, ?_⟩
    · exact stands_tokenAt_end .nl hrest hrow' hcolumn hline
    · refine ⟨?_, Or.inr (Or.inl hend)⟩
      rw [lastRow_append_of_not_mem x hmem, hend]
      exact hbreak
    · exact NewlineFree.withinRow ⟨by simpa using hmem, by simp⟩

private theorem startsCode_append (hy : startsCode y = true) (z : Text) :
    startsCode (y ++ z) = true := by
  cases y with
  | nil => cases hy
  | cons c y => exact hy

private theorem spell_replicate_empty {d : Token} (hd : d.text = []) (n : Nat) :
    spell (List.replicate n ⟨[], d⟩) = [] := by
  induction n with
  | zero => rfl
  | succ n ih => simp [List.replicate_succ, hd, ih]

private theorem laid_replicate_dedent {d : Token} (depth : Nat) (hd : d.text = [])
    (hkind : d.kind = .dedent) (hstands : d.Stands x rest) (hcode : startsCode rest = true)
    (n : Nat) : Laid depth x (List.replicate n ⟨[], d⟩) rest depth := by
  have hafter : d.depthAfter depth = depth := by
    simp [Token.depthAfter, depthAfterToken, hkind]
  induction n with
  | zero => exact .nil
  | succ n ih =>
    refine .cons ⟨rfl, ?_, ?_⟩ ?_
    · rw [spell_replicate_empty hd]
      simpa using hstands
    · rw [spell_replicate_empty hd]
      simp [Token.Lawful, hkind, hd, hcode]
    · rw [hafter]
      simpa [Piece.text, hd] using ih

private theorem laid_adjustIndents {indents indents' : List Nat} {moves : List Token}
    (h : adjustIndents indents row lead (lead ++ y) = .ok (indents', moves)) (depth : Nat)
    (hend : lastRow x = []) (hr : row = (place x).row) (hlead : ∀ c ∈ lead, isSpacing c = true)
    (hrow : IsRow (lead ++ y) rest) (hcode : startsCode y = true) :
    ∃ qs g, moves = qs.map Piece.token ∧ lead = spell qs ++ g ∧ isGap g = true ∧
      (∀ q ∈ qs, '\n' ∉ q.gap) ∧ Laid depth x qs (g ++ y ++ rest) depth := by
  have hmem : '\n' ∉ lead := fun h => isSpacing_ne_newline (hlead _ h) rfl
  have hgap := isGap_of_spacing hlead
  have hcode' := startsCode_append hcode rest
  have hdedent : (tokenAt .dedent [] row lead.size (lead ++ y)).Stands (x ++ lead) (y ++ rest) := by
    refine stands_tokenAt .dedent (hrow.drop hmem) ?_ ?_ ?_
    · rw [place_append_of_not_mem x hmem]
      exact hr
    · rw [place_append_of_not_mem x hmem, place_column, hend]
      simp
    · rw [lastRow_append_of_not_mem x hmem, hend]
      rfl
  have hindent : (tokenAt .indent lead row 0 (lead ++ y)).Stands x (y ++ rest) :=
    stands_tokenAt .indent hrow hr (by simp [hend]) (by rw [hend]; rfl)
  simp only [adjustIndents] at h
  split at h
  · rename_i hdeeper
    cases h
    refine ⟨[⟨[], _⟩], [], rfl, by simp, rfl, by simp, .cons ⟨rfl, ?_, ?_⟩ .nil⟩
    · rw [List.append_nil]
      exact hindent
    · refine ⟨?_, hlead, hcode'⟩
      rintro rfl
      simp [indentColumn] at hdeeper
  · split at h
    · split at h
      · cases h
      · cases h
        generalize indents.takeWhile _ = closed
        rw [List.map_const']
        cases hn : closed.length with
        | zero => exact ⟨[], lead, rfl, rfl, hgap, by simp, .nil⟩
        | succ n =>
          refine ⟨⟨lead, tokenAt .dedent [] row lead.size (lead ++ y)⟩ ::
            List.replicate n ⟨[], tokenAt .dedent [] row lead.size (lead ++ y)⟩, [],
            by simp [List.replicate_succ], ?_, rfl, ?_, .cons ⟨hgap, ?_, ?_⟩ ?_⟩
          · rw [spell_cons, spell_replicate_empty rfl]
            simp [tokenAt]
          · intro q hq
            rcases List.mem_cons.mp hq with rfl | hq
            · exact hmem
            · rw [List.eq_of_mem_replicate hq]
              simp
          · rw [spell_replicate_empty rfl]
            exact hdedent
          · rw [spell_replicate_empty rfl]
            exact ⟨rfl, hcode'⟩
          · have hrest := laid_replicate_dedent depth rfl rfl hdedent hcode' n
            simpa [Piece.text, tokenAt, Token.depthAfter, depthAfterToken] using hrest
    · cases h
      exact ⟨[], lead, rfl, rfl, hgap, by simp, .nil⟩

private theorem readsLine_scanFresh {st' : Scanner} {tokens : List Token} {line : Text}
    (h : scanFresh st row line = .ok (tokens, st'))
    (hst : st.continued = false ∧ st.pending = none) (hend : lastRow x = [])
    (hr : row = (place x).row) (hrow : IsRow line rest) (hne : line ≠ []) :
    ReadsLine st st' tokens x [] [] line rest := by
  have hlead : ∀ c ∈ line.takeWhile isSpacing, isSpacing c = true := fun c hc =>
    List.all_eq_true.mp List.all_takeWhile c hc
  have hmem : '\n' ∉ line.takeWhile isSpacing := fun h => isSpacing_ne_newline (hlead _ h) rfl
  have hdrop : line.drop (line.takeWhile isSpacing).length = line.dropWhile isSpacing := by
    have h := congrArg (List.drop (line.takeWhile isSpacing).length)
      (List.takeWhile_append_dropWhile (p := isSpacing) (l := line))
    rw [← h, List.drop_left]
  have hsplit : line = line.takeWhile isSpacing ++ line.dropWhile isSpacing :=
    List.takeWhile_append_dropWhile.symm
  have hhead := List.head?_dropWhile_not isSpacing line
  simp only [scanFresh, hdrop] at h
  generalize line.takeWhile isSpacing = lead at *
  generalize line.dropWhile isSpacing = y at *
  subst hsplit
  split at h
  · rename_i hcodeless
    cases h
    exact readsLine_emptyLine hst hend hr hlead hrow hne hcodeless
  · rename_i hcodeless
    have hcode : startsCode y = true := by
      cases y with
      | nil => exact absurd rfl hcodeless
      | cons c y =>
        have hc : isSpacing c = false := by simpa using hhead
        simp [startsCode, hc, hcodeless]
    cases hmoves : adjustIndents st.indents row lead (lead ++ y) with
    | error cause =>
      rw [hmoves] at h
      cases h
    | ok result =>
      obtain ⟨indents, moves⟩ := result
      rw [hmoves] at h
      obtain ⟨qs, g, rfl, hspell, hgap, hgaps, hlaid⟩ :=
        laid_adjustIndents hmoves st.depth hend hr hlead hrow hcode
      cases h
      have hplace : x ++ spell qs ++ g = x ++ lead := by
        rw [List.append_assoc, ← hspell]
      have hgmem : '\n' ∉ g := by
        intro hg
        rw [hspell] at hmem
        exact hmem (List.mem_append_right _ hg)
      obtain ⟨ps, tail', pend', hreads, hrows⟩ := @scanFrom_reads row (Text.size lead) st.depth (lead ++ y)
        (x ++ spell qs) g y rest hgap (fun _ hg => hgmem (List.mem_of_getLast? hg))
        (hrow.drop hmem)
        (by rw [hplace, place_append_of_not_mem x hmem]; exact hr)
        (by rw [hplace, place_append_of_not_mem x hmem, place_column, hend]; simp)
        (by rw [hplace, lastRow_append_of_not_mem x hmem, hend]; rfl)
      refine ⟨qs ++ ps, tail', pend', hreads.prepend rfl hlaid ?_ List.nil_prefix, ?_⟩
      · rw [List.nil_append, List.nil_append, ← hspell]
      · obtain ⟨hps, htail⟩ := hrows.newlineFree hgmem
        refine NewlineFree.withinRow ⟨?_, htail⟩
        intro p hp
        rcases List.mem_append.mp hp with hp | hp
        · exact hgaps p hp
        · exact hps p hp

end FreshLines

theorem readsLine_scanLine {st st' : Scanner} {row : Nat} {tokens : List Token}
    {x tail pend line rest : Text} (h : scanLine st row line = .ok (tokens, st'))
    (hst : Remembers st.continued st.pending x tail pend (line ++ rest))
    (hend : lastRow (x ++ tail ++ pend) = []) (hr : row = (place (x ++ tail ++ pend)).row)
    (hrow : IsRow line rest) (hne : line ≠ []) :
    ReadsLine st st' tokens x tail pend line rest := by
  unfold scanLine at h
  split at h
  · rename_i p hp
    have hreads := readsLine_scanInString hp hst hend hr hrow hne
    rw [Except.ok.inj h] at hreads
    exact hreads
  · rename_i hp
    have hpend := hst.closed hp
    subst hpend
    rw [List.append_nil] at hend hr
    split at h
    · rename_i hfresh
      have hcontinued : st.continued = false := by simpa using hfresh.2
      have htail : tail = [] := by
        have hlast := hst.ended hcontinued hp
        rcases List.eq_nil_or_concat' tail with hnil | ⟨u, c, rfl⟩
        · exact hnil
        · exfalso
          have hc : '\n' ∉ [c] := by
            simpa [eq_comm] using hlast
          rw [← List.append_assoc, lastRow_append_of_not_mem _ hc] at hend
          simp at hend
      subst htail
      rw [List.append_nil] at hend hr
      exact readsLine_scanFresh h ⟨hcontinued, hp⟩ hend hr hrow hne
    · cases h
      obtain ⟨ps, tail', pend', hreads, hrows⟩ := @scanFrom_reads row 0 st.depth line x tail line
        rest hst.gap (fun h => absurd h hne) hrow hr (by simp [hend]) (by rw [hend]; rfl)
      exact ⟨ps, tail', pend', hreads, hrows⟩

section Lines

theorem rows_rawLines (s : Text) : Rows s.rawLines [] := by
  induction s using Text.line_induction with
  | last b hb =>
    by_cases hne : b = []
    · subst hne
      exact True.intro
    · rw [Text.rawLines_of_not_mem hne hb]
      exact ⟨hne, Or.inl ⟨hb, rfl⟩, True.intro⟩
  | line b s hb ih =>
    rw [Text.rawLines_append_newline hb]
    exact ⟨by simp, Or.inr ⟨b, rfl, hb⟩, ih⟩

private theorem IsRow.lastRow_append {x y rest : Text} (h : IsRow y rest) (hrest : rest ≠ []) :
    lastRow (x ++ y) = [] := by
  rcases h with ⟨-, hnil⟩ | ⟨u, rfl, -⟩
  · exact absurd hnil hrest
  · rw [← List.append_assoc, lastRow_append_newline]
    rfl

theorem IsRow.place_row {x y rest : Text} (h : IsRow y rest) (hrest : rest ≠ []) :
    (place (x ++ y)).row = (place x).row + 1 := by
  rcases h with ⟨-, hnil⟩ | ⟨u, rfl, hu⟩
  · exact absurd hnil hrest
  · simp [List.count_eq_zero_of_not_mem hu]

/-- The scanner is never continued while it goes through the lines. -/
def NeverContinued (st : Scanner) (row : Nat) (ls : List Text) : Prop :=
  ∀ k tokens st', scanLines st row (ls.take k) = .ok (tokens, st') → st'.continued = false

def leavesLine : Except Error (List Token × Scanner) → Bool
  | .ok (_, st) => !st.continued
  | .error _ => true

instance (st : Scanner) (row : Nat) (ls : List Text) : Decidable (NeverContinued st row ls) :=
  decidable_of_iff
    (∀ k < ls.length + 1, leavesLine (scanLines st row (ls.take k)) = true) <| by
      constructor
      · intro h k tokens st' hscan
        have htake : ls.take k = ls.take (min k ls.length) := by simp
        have hk := h (min k ls.length) (by omega)
        rw [← htake, hscan] at hk
        simpa [leavesLine] using hk
      · intro h k _
        cases hscan : scanLines st row (ls.take k) with
        | error cause => rfl
        | ok result =>
          have hk := h k result.1 result.2 hscan
          simp [leavesLine, hk]

theorem scanLines_cons {st st' : Scanner} {row : Nat} {line : Text} {ls : List Text}
    {tokens : List Token} (h : scanLines st row (line :: ls) = .ok (tokens, st')) :
    ∃ mid before more, scanLine st row line = .ok (before, mid) ∧
      scanLines mid (row + 1) ls = .ok (more, st') ∧ tokens = before ++ more := by
  rw [scanLines] at h
  cases hline : scanLine st row line with
  | error cause =>
    rw [hline] at h
    cases h
  | ok result =>
    obtain ⟨before, mid⟩ := result
    rw [hline] at h
    cases hrest : scanLines mid (row + 1) ls with
    | error cause =>
      simp only [bind, Except.bind, hrest] at h
      cases h
    | ok result =>
      obtain ⟨more, last⟩ := result
      simp only [bind, Except.bind, hrest] at h
      cases h
      exact ⟨mid, before, more, rfl, hrest, rfl⟩

theorem NeverContinued.cons {st mid : Scanner} {row : Nat} {line : Text} {ls : List Text}
    {tokens : List Token} (h : NeverContinued st row (line :: ls))
    (hline : scanLine st row line = .ok (tokens, mid)) :
    mid.continued = false ∧ NeverContinued mid (row + 1) ls := by
  have hstep : ∀ k more last, scanLines mid (row + 1) (ls.take k) = .ok (more, last) →
      last.continued = false := by
    intro k more last hmore
    apply h (k + 1) (tokens ++ more) last
    rw [List.take_succ_cons, scanLines]
    simp only [bind, Except.bind, hline, hmore]
    rfl
  exact ⟨hstep 0 [] mid rfl, hstep⟩

/-- What a scanner makes of lines that follow one another. -/
theorem scanLines_reads {st st' : Scanner} {row : Nat} {tokens : List Token} {ls : List Text}
    {x tail pend rest : Text} (h : scanLines st row ls = .ok (tokens, st'))
    (hst : Remembers st.continued st.pending x tail pend (ls.flatten ++ rest))
    (hstart : ls ≠ [] → lastRow (x ++ tail ++ pend) = [] ∧ row = (place (x ++ tail ++ pend)).row)
    (hrows : Rows ls rest) :
    ∃ ps tail' pend',
      (st'.lineScan tokens).Reads st.depth x tail (pend ++ ls.flatten) rest ps tail' pend' ∧
        (NeverContinued st row ls → '\n' ∉ tail → NewlineFree ps false tail') := by
  induction ls generalizing st row tokens x tail pend with
  | nil =>
    cases h
    exact ⟨[], tail, pend, ⟨rfl, by simp, .nil, by simpa [Scanner.lineScan] using hst,
      List.prefix_refl tail⟩, fun _ hmem => ⟨by simp, fun _ => hmem⟩⟩
  | cons line ls ih =>
    obtain ⟨mid, before, more, hline, hmore, rfl⟩ := scanLines_cons h
    obtain ⟨hne, hrow, hrest⟩ := hrows
    obtain ⟨hend, hr⟩ := hstart (by simp)
    rw [List.flatten_cons, List.append_assoc] at hst
    obtain ⟨qs, tail₁, pend₁, hreads, hwithin⟩ := readsLine_scanLine hline hst hend hr hrow hne
    have htext := hreads.text
    have hread : x ++ spell qs ++ tail₁ ++ pend₁ = x ++ tail ++ pend ++ line := by
      have h := congrArg (x ++ ·) htext
      simpa only [List.append_assoc] using h.symm
    have hnext : ls ≠ [] → lastRow (x ++ spell qs ++ tail₁ ++ pend₁) = [] ∧
        row + 1 = (place (x ++ spell qs ++ tail₁ ++ pend₁)).row := by
      intro hls
      have hmoreText : ls.flatten ++ rest ≠ [] := by
        cases ls with
        | nil => exact absurd rfl hls
        | cons l ls => simp [hrest.1]
      rw [hread]
      exact ⟨hrow.lastRow_append hmoreText, by rw [hrow.place_row hmoreText, hr]⟩
    obtain ⟨ps, tail', pend', hreads', hwithin'⟩ := ih hmore hreads.remembers hnext hrest
    have hlaid := hreads.laid
    refine ⟨qs ++ ps, tail', pend', ?_, ?_⟩
    · refine LineScan.Reads.prepend (l := st'.lineScan more) hreads.tokens ?_ hreads' ?_ hreads.first
      · simpa [Scanner.lineScan] using hlaid
      · rw [List.flatten_cons, ← List.append_assoc, ← List.append_assoc, List.append_assoc tail, htext]
        simp
    · intro hnever hmem
      obtain ⟨hcontinued, hnever'⟩ := hnever.cons hline
      obtain ⟨hqs, htail⟩ := hwithin.newlineFree hmem
      obtain ⟨hps, htail'⟩ := hwithin' hnever' (htail hcontinued)
      refine ⟨?_, htail'⟩
      intro p hp
      rcases List.mem_append.mp hp with hp | hp
      · exact hqs p hp
      · exact hps p hp

theorem Rows.take {ls : List Text} {rest : Text} (h : Rows ls rest) (k : Nat) :
    Rows (ls.take k) ((ls.drop k).flatten ++ rest) := by
  induction ls generalizing k with
  | nil => simp [Rows]
  | cons l ls ih =>
    cases k with
    | zero => exact True.intro
    | succ k =>
      obtain ⟨hne, hrow, hrest⟩ := h
      have hflat : (ls.take k).flatten ++ ((ls.drop k).flatten ++ rest) = ls.flatten ++ rest := by
        rw [← List.append_assoc, ← List.flatten_append, List.take_append_drop]
      refine ⟨hne, ?_, ih hrest k⟩
      rw [List.drop_succ_cons, hflat]
      exact hrow

theorem Rows.drop {ls : List Text} {rest : Text} (h : Rows ls rest) (k : Nat) :
    Rows (ls.drop k) rest := by
  induction ls generalizing k with
  | nil => simp [Rows]
  | cons l ls ih =>
    cases k with
    | zero => exact h
    | succ k => exact ih h.2.2 k

theorem Rows.complete {ls : List Text} {rest x : Text} (h : Rows ls rest) (hx : lastRow x = [])
    {k : Nat} (hk : k < ls.length) :
    lastRow (x ++ (ls.take k).flatten) = [] ∧
      (x ++ (ls.take k).flatten).count '\n' = x.count '\n' + k := by
  induction ls generalizing x k with
  | nil => simp at hk
  | cons l ls ih =>
    cases k with
    | zero => simpa using hx
    | succ k =>
      obtain ⟨hne, hrow, hrest⟩ := h
      have hk' : k < ls.length := by simpa using hk
      have hmore : ls.flatten ++ rest ≠ [] := by
        cases ls with
        | nil => simp at hk'
        | cons m ls => simp [hrest.1]
      have hnext := ih hrest (hrow.lastRow_append (x := x) hmore) hk'
      have hplace := hrow.place_row (x := x) hmore
      simp only [place_row] at hplace
      rw [List.take_succ_cons, List.flatten_cons, ← List.append_assoc]
      exact ⟨hnext.1, by omega⟩

theorem scanLines_append {st st' : Scanner} {row : Nat} {ls ms : List Text} {tokens : List Token}
    (h : scanLines st row (ls ++ ms) = .ok (tokens, st')) :
    ∃ mid before more, scanLines st row ls = .ok (before, mid) ∧
      scanLines mid (row + ls.length) ms = .ok (more, st') ∧ tokens = before ++ more := by
  induction ls generalizing st row tokens with
  | nil => exact ⟨st, [], tokens, rfl, h, rfl⟩
  | cons l ls ih =>
    obtain ⟨next, first, others, hline, hothers, rfl⟩ := scanLines_cons h
    obtain ⟨mid, before, more, hbefore, hmore, rfl⟩ := ih hothers
    refine ⟨mid, first ++ before, more, ?_, ?_, by simp⟩
    · rw [scanLines]
      simp only [bind, Except.bind, hline, hbefore]
      rfl
    · rw [List.length_cons, ← hmore]
      congr 1
      omega

theorem remembers_start (rest : Text) :
    Remembers Scanner.start.continued Scanner.start.pending [] [] [] rest :=
  ⟨rfl, by simp [Scanner.start], fun _ => rfl, by simp [Scanner.start], by simp⟩

theorem reads_of_scanLines {s : Text} {k : Nat} {st : Scanner} {tokens : List Token}
    (h : scanLines .start 1 (s.rawLines.take k) = .ok (tokens, st)) :
    ∃ ps tail pend,
      (st.lineScan tokens).Reads 0 [] [] (s.rawLines.take k).flatten
        (s.rawLines.drop k).flatten ps tail pend ∧
      (NeverContinued .start 1 (s.rawLines.take k) → NewlineFree ps false tail) := by
  have hrows := (rows_rawLines s).take k
  rw [List.append_nil] at hrows
  obtain ⟨ps, tail, pend, hreads, hwithin⟩ := scanLines_reads h (remembers_start _)
    (fun _ => ⟨rfl, rfl⟩) hrows
  exact ⟨ps, tail, pend, hreads, fun hnever => hwithin hnever (by simp)⟩

theorem tokenize_eq_ok {s : Text} {tokens : List Token} (h : tokenize s = .ok tokens) :
    ∃ scanned st, scanLines .start 1 s.rawLines = .ok (scanned, st) ∧ st.depth = 0 ∧
      st.continued = false ∧ st.pending = none ∧
      tokens = scanned ++
        closingTokens scanned st s.rawLines.length (s.rawLines.getLast?.getD []) := by
  simp only [tokenize] at h
  cases hscan : scanLines .start 1 s.rawLines with
  | error cause =>
    rw [hscan] at h
    cases h
  | ok result =>
    obtain ⟨scanned, st⟩ := result
    rw [hscan] at h
    simp only [bind, Except.bind] at h
    split at h
    · cases h
    · rename_i hpending
      split at h
      · cases h
      · rename_i hopen
        cases h
        refine ⟨scanned, st, rfl, ?_, ?_, hpending, rfl⟩
        · by_contra hdepth
          exact hopen (Or.inl (by omega))
        · simpa using fun hcontinued => hopen (Or.inr hcontinued)

end Lines

end DocstringFormat.Source
