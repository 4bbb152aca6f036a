import DocstringFormat.Proofs.Source.Blanks
import DocstringFormat.Proofs.Source.RoundTrip
import DocstringFormat.Proofs.Text.LineEnding

/-!
Formatting a source is a splice.

Where no line is continued, formatting replaces the docstrings that are in scope and deletes blank
lines around them; every other byte stays where it is.  The edits are read off the tokens
(`sourceEdits`), and the cursor that puts the tokens together again stays with the text although
some tokens have new text and others are gone (`splice_sitesFrom`).  The main result is
`tryFormat_eq_splice`.
-/

set_option autoImplicit false

namespace DocstringFormat.Source

section Edits

/-- The byte offset of a place in a source. -/
def offset (s : Text) (p : Place) : Nat :=
  Text.size (s.rawLines.take (p.row - 1)).flatten + p.column

/-- New text for the bytes from `start` up to `stop`. -/
structure Edit where
  start : Nat
  stop : Nat
  text : Text
deriving DecidableEq

def Edit.apply (e : Edit) (s : Text) : Text :=
  s.takeBytes e.start ++ e.text ++ s.dropBytes e.stop

/-- A text after edits, the last of which is made first, so that the offsets of the others stay
right. -/
def splice (s : Text) (es : List Edit) : Text :=
  es.foldr Edit.apply s

/-- The edits are in order and do not overlap, between two offsets. -/
def Separate (hi : Nat) : Nat → List Edit → Prop
  | lo, [] => lo ≤ hi
  | lo, e :: es => lo ≤ e.start ∧ e.start ≤ e.stop ∧ Separate hi e.stop es

/-- A string is rewritten if it could be a docstring, is in scope, and either is reported as the
docstring of a block, or directly follows an indentation or the end of a logical line, or has only
comments and line breaks before it. -/
def Site.IsRewritten (o : Options) (reported : List Nat) (site : Site) : Prop :=
  site.isCandidate = true ∧ inScope o site.token = true ∧
    (site.index ∈ reported ∨
      (∃ n ∈ site.before.head?, n.token.kind = .indent ∨ n.token.kind = .newline) ∨
      ∀ n ∈ site.before, n.token.kind = .comment ∨ n.token.kind = .nl ∨ n.token.kind = .newline)

instance (o : Options) (reported : List Nat) (site : Site) :
    Decidable (site.IsRewritten o reported) :=
  inferInstanceAs (Decidable (_ ∧ _ ∧ (_ ∨ _ ∨ _)))

/-- The edits at a token: a string that is rewritten is replaced by its formatted text, and the
whole line of a blank line that is dropped is deleted. -/
def Site.edits (o : Options) (s : Text) (reported dropped : List Nat) (site : Site) :
    Except Fault (List Edit) :=
  if site.IsRewritten o reported then
    (Docstring.format o site.token.lineIndent site.token.text).result.map fun text =>
      [⟨offset s site.token.start, offset s site.token.stop, text⟩]
  else if site.index ∈ dropped then
    .ok [⟨offset s ⟨site.token.start.row, 0⟩, offset s ⟨site.token.start.row + 1, 0⟩, []⟩]
  else .ok []

def collectEdits (o : Options) (s : Text) (reported dropped : List Nat) :
    List Site → Except Fault (List Edit)
  | [] => .ok []
  | site :: rest => do
    let es ← site.edits o s reported dropped
    let more ← collectEdits o s reported dropped rest
    return es ++ more

/-- All edits of a source with given tokens. -/
def sourceEdits (o : Options) (s : Text) (tokens : List Token) : Except Fault (List Edit) :=
  collectEdits o s ((blocks tokens).map Block.docstring)
    (droppedBlanks o (blocks tokens) (sites tokens)) (sites tokens)

private theorem splice_cons (s : Text) (e : Edit) (es : List Edit) :
    splice s (e :: es) = e.apply (splice s es) := rfl

private theorem Edit.apply_between (a b u rest : Text) :
    Edit.apply ⟨a.size, (a ++ b).size, u⟩ (a ++ b ++ rest) = a ++ u ++ rest := by
  have htake : Text.takeBytes a.size (a ++ b ++ rest) = a := by
    rw [List.append_assoc, Text.takeBytes_size]
  have hdrop : Text.dropBytes (a ++ b).size (a ++ b ++ rest) = rest := Text.dropBytes_size _ _
  rw [Edit.apply, htake, hdrop]

theorem Separate.mono {hi lo lo' : Nat} {es : List Edit} (h : Separate hi lo es) (hlo : lo' ≤ lo) :
    Separate hi lo' es := by
  cases es with
  | nil => exact Nat.le_trans hlo h
  | cons e es => exact ⟨Nat.le_trans hlo h.1, h.2⟩

end Edits

section Offsets

theorem flatten_take_count (x rest : Text) :
    ((x ++ rest).rawLines.take (x.count '\n')).flatten ++ lastRow x = x := by
  induction x using Text.line_induction with
  | last b hb => rw [List.count_eq_zero_of_not_mem hb, lastRow_of_not_mem hb]; simp
  | line b x hb ih =>
    have hcount : (b ++ '\n' :: x).count '\n' = x.count '\n' + 1 := by
      simp [List.count_eq_zero_of_not_mem hb]
    rw [hcount, List.append_assoc, List.cons_append, Text.rawLines_append_newline hb,
      List.take_succ_cons, List.flatten_cons, lastRow_append_newline, List.append_assoc, ih]
    simp

private theorem offset_row (x rest : Text) (hx : lastRow x = []) :
    offset (x ++ rest) ⟨x.count '\n' + 1, 0⟩ = x.size := by
  have h := flatten_take_count x rest
  rw [hx, List.append_nil] at h
  rw [offset, Nat.add_sub_cancel, h, Nat.add_zero]

theorem offset_place (x rest : Text) : offset (x ++ rest) (place x) = x.size := by
  have h := congrArg Text.size (flatten_take_count x rest)
  rw [Text.size_append] at h
  rw [offset, place, Nat.add_sub_cancel, h]

private theorem rawLines_of_row {x b : Text} (hx : lastRow x = []) (hb : '\n' ∉ b) (rest : Text) :
    (x ++ (b ++ ['\n']) ++ rest).rawLines[x.count '\n']? = some (b ++ ['\n']) := by
  induction x using Text.line_induction with
  | last a ha =>
    rw [lastRow_of_not_mem ha] at hx
    subst hx
    rw [List.nil_append, List.append_assoc, List.singleton_append,
      Text.rawLines_append_newline hb]
    rfl
  | line a x ha ih =>
    have hcount : (a ++ '\n' :: x).count '\n' = x.count '\n' + 1 := by
      simp [List.count_eq_zero_of_not_mem ha]
    rw [lastRow_append_newline] at hx
    rw [hcount, List.append_assoc, List.append_assoc, List.cons_append,
      Text.rawLines_append_newline ha, List.getElem?_cons_succ, ← List.append_assoc, ih hx]

end Offsets

section Tokens

variable {o : Options} {reported dropped : List Nat} {s : Text} {tokens : List Token}

theorem opensBlock_iff {site : Site} (hbefore : ∀ n ∈ site.before, n.token.kind ≠ .encoding) :
    site.opensBlock = true ↔
      (∃ n ∈ site.before.head?, n.token.kind = .indent ∨ n.token.kind = .newline) ∨
      ∀ n ∈ site.before, n.token.kind = .comment ∨ n.token.kind = .nl ∨ n.token.kind = .newline := by
  rw [Site.opensBlock, Bool.or_eq_true, List.all_eq_true]
  apply or_congr
  · cases site.before <;> simp
  · apply forall₂_congr
    intro n hn
    simp [hbefore n hn]

theorem isEligible_iff {site : Site} (hbefore : ∀ n ∈ site.before, n.token.kind ≠ .encoding) :
    site.isEligible o reported = true ↔ site.IsRewritten o reported := by
  simp only [Site.isEligible, Bool.and_eq_true, Bool.or_eq_true, opensBlock_iff hbefore,
    List.contains_iff_mem]
  constructor
  · rintro ⟨⟨hcandidate, hopens⟩, hscope⟩
    exact ⟨hcandidate, hscope, hopens.symm⟩
  · rintro ⟨hcandidate, hscope, hopens⟩
    exact ⟨⟨hcandidate, hopens.symm⟩, hscope⟩

theorem kind_of_isRewritten {site : Site} (h : site.IsRewritten o reported) :
    site.token.kind = .string := by
  have hcandidate := h.1
  simp only [Site.isCandidate, Bool.and_eq_true, beq_iff_eq] at hcandidate
  exact hcandidate.1.1.1

/-- A token with another text. -/
def Token.withText (t : Token) (text : Text) : Token :=
  { t with text := text }

theorem renderFrom_withText {t : Token} (ht : t.kind ≠ .encoding) (text : Text) (c : Cursor)
    (ts : List Token) :
    renderFrom c (t.withText text :: ts) = c.gap t ++ text ++ renderFrom (c.advance t) ts :=
  renderFrom_cons (t := t.withText text) ht c ts

theorem result_format {site : Site} (hbefore : ∀ n ∈ site.before, n.token.kind ≠ .encoding) :
    (site.format o reported).result =
      if site.IsRewritten o reported then
        (Docstring.format o site.token.lineIndent site.token.text).result.map site.token.withText
      else .ok site.token := by
  by_cases h : site.IsRewritten o reported
  · rw [if_pos h, Site.format, if_pos ((isEligible_iff hbefore).mpr h)]
    generalize Docstring.format o site.token.lineIndent site.token.text = formatted
    obtain ⟨events, result⟩ := formatted
    cases result with
    | error fault => rfl
    | ok text =>
      simp only [bind, Traced.bind, Except.map]
      by_cases htext : text = site.token.text
      · rw [if_pos htext, htext]
        rfl
      · rw [if_neg htext]
        rfl
  · rw [if_neg h, Site.format, if_neg (fun heligible => h ((isEligible_iff hbefore).mp heligible))]
    rfl

theorem result_formatSites_cons (site : Site) (rest : List Site) :
    (formatSites o reported (site :: rest)).result =
      (site.format o reported).result.bind fun t =>
        (formatSites o reported rest).result.map (t :: ·) := by
  rw [formatSites]
  simp only [bind, Traced.bind]
  cases (site.format o reported).result with
  | error fault => rfl
  | ok t =>
    simp only [Except.bind]
    cases (formatSites o reported rest).result with
    | error fault => rfl
    | ok ts => rfl

private theorem collectEdits_cons (site : Site) (rest : List Site) :
    collectEdits o s reported dropped (site :: rest) =
      (site.edits o s reported dropped).bind fun es =>
        (collectEdits o s reported dropped rest).map (es ++ ·) := by
  rw [collectEdits]
  cases site.edits o s reported dropped with
  | error fault => rfl
  | ok es =>
    simp only [bind, Except.bind]
    cases collectEdits o s reported dropped rest with
    | error fault => rfl
    | ok more => rfl

theorem IsBlankAt.of_split {pre post : List Token} {t : Token} (h : IsBlankAt tokens pre.length)
    (htokens : tokens = pre ++ t :: post) : t.isBlankLine = true ∧ depthOf pre = 0 := by
  obtain ⟨pre', t', post', htokens', hlength, hblank, hdepth⟩ := h
  obtain ⟨rfl, hrest⟩ := List.append_inj (htokens'.symm.trans htokens) hlength
  obtain ⟨rfl, -⟩ := List.cons.inj hrest
  exact ⟨hblank, hdepth⟩

private theorem formatSites_of_plain {pre ts : List Token} {before : List Numbered}
    (hdropped : ∀ i ∈ dropped, IsBlankAt tokens i) (htokens : tokens = pre ++ ts)
    (hkinds : ∀ t ∈ ts, t.kind ≠ .string ∧ t.kind ≠ .nl ∧ t.kind ≠ .encoding)
    (hbefore : ∀ n ∈ before, n.token.kind ≠ .encoding) :
    (formatSites o reported (sitesFrom pre.length before ts)).result = .ok ts ∧
      withoutIndices dropped pre.length ts = ts ∧
      collectEdits o s reported dropped (sitesFrom pre.length before ts) = .ok [] := by
  induction ts generalizing pre before with
  | nil => exact ⟨rfl, rfl, rfl⟩
  | cons t ts ih =>
    obtain ⟨hstring, hnl, hencoding⟩ := hkinds t (by simp)
    have hnext := @ih (pre ++ [t]) (⟨pre.length, t⟩ :: before) (by rw [htokens]; simp)
      (fun u hu => hkinds u (List.mem_cons_of_mem t hu)) (by
        intro n hn
        rcases List.mem_cons.mp hn with rfl | hn
        · exact hencoding
        · exact hbefore n hn)
    rw [List.length_append, List.length_singleton] at hnext
    obtain ⟨hformat, hkept, hedits⟩ := hnext
    have hindex : pre.length ∉ dropped := by
      intro hmem
      have hblank := ((hdropped _ hmem).of_split htokens).1
      exact hnl (kind_of_isBlankLine hblank)
    have hplain : ¬ Site.IsRewritten o reported ⟨pre.length, before, t, ts⟩ :=
      fun h => hstring (kind_of_isRewritten h)
    refine ⟨?_, ?_, ?_⟩
    · rw [sitesFrom, result_formatSites_cons, result_format hbefore, if_neg hplain, hformat]
      rfl
    · rw [withoutIndices, if_neg (by simpa using hindex), hkept]
    · rw [sitesFrom, collectEdits_cons, Site.edits, if_neg hplain, if_neg hindex, hedits]
      rfl

end Tokens

section Pieces

variable {o : Options} {reported dropped : List Nat} {s x rest : Text} {p : Piece} {c : Cursor}
  {depth : Nat}

private theorem blank_piece (hfits : p.Fits 0 x rest) (hblank : p.token.isBlankLine = true)
    (hgap : '\n' ∉ p.gap) (hcr : '\r' ∉ p.token.text)
    (hend : rest = [] → lastRow (x ++ p.text) = []) : lastRow x = [] ∧ p.token.text = ['\n'] := by
  have hlawful := hfits.lawful
  simp only [Token.Lawful, kind_of_isBlankLine hblank] at hlawful
  obtain ⟨hbreak, hplace⟩ := hlawful
  constructor
  · rcases hplace with hdepth | hrow | hhash
    · omega
    · exact hrow
    · exfalso
      have hline : '#' ∈ p.token.line := by
        rw [hfits.stands.line, lastRow_append_of_not_mem x hgap]
        simp [hhash]
      simp only [Token.isBlankLine, Bool.and_eq_true, Text.isBlank, List.all_eq_true] at hblank
      exact absurd (hblank.2 '#' hline) (by decide)
  · rcases hbreak with htext | ⟨hrow, htext, hrest⟩ | hhead
    · exact htext
    · exfalso
      have hnil := hend hrest
      rw [Piece.text, htext, List.append_nil] at hnil
      exact hrow hnil
    · exact absurd (List.mem_of_head? hhead) hcr

theorem Cursor.At.skip (hc : c.At x (p.text ++ rest)) (hgap : isGap p.gap = true)
    (hmem : '\n' ∉ p.gap) (hx : lastRow x = []) (htext : p.token.text = ['\n']) :
    c.At (x ++ p.text) rest := by
  have hp : p.text = p.gap ++ ['\n'] := by rw [Piece.text, htext]
  rcases hc with hwithin | hpast
  · exfalso
    have hcode := hwithin.code hx
    rw [hp] at hcode
    cases hgaps : p.gap with
    | nil =>
      rw [hgaps] at hcode
      simp [startsCode, isCodeless] at hcode
    | cons d g =>
      have hspace := spacing_of_gap hgap hmem d (by simp [hgaps])
      rw [hgaps] at hcode
      simp [startsCode, hspace] at hcode
  · right
    refine ⟨?_, ?_, hpast.credit⟩
    · have hrow := hpast.row
      simp only [place_row, List.count_append] at hrow ⊢
      omega
    · rw [hp, ← List.append_assoc, lastRow_append_newline]
      rfl

private theorem offset_start (hfits : p.Fits depth x rest) (hs : s = x ++ p.text ++ rest) :
    offset s p.token.start = (x ++ p.gap).size := by
  have h := offset_place (x ++ p.gap) (p.token.text ++ rest)
  rw [hfits.stands.start, hs, Piece.text]
  simpa using h

theorem offset_stop (hfits : p.Fits depth x rest) (hs : s = x ++ p.text ++ rest)
    (hkind : p.token.kind = .string) :
    offset s p.token.stop = (x ++ p.gap ++ p.token.text).size := by
  have hlawful := hfits.lawful
  simp only [Token.Lawful, hkind, Lexical] at hlawful
  obtain ⟨-, q, hq, hquote⟩ := hlawful
  have hlast : p.token.text.getLast? ≠ some '\n' := by
    rw [hq]
    simpa using hquote.ne_newline
  have h := offset_place (x ++ p.gap ++ p.token.text) rest
  rw [hfits.stands.stop, stopPlace, if_neg hlast, hs, Piece.text]
  simpa using h

private theorem offset_blank (hfits : p.Fits depth x rest) (hs : s = x ++ p.text ++ rest)
    (hmem : '\n' ∉ p.gap) (hx : lastRow x = []) (htext : p.token.text = ['\n']) :
    offset s ⟨p.token.start.row, 0⟩ = x.size ∧
      offset s ⟨p.token.start.row + 1, 0⟩ = (x ++ p.text).size := by
  have hrow : p.token.start.row = x.count '\n' + 1 := by
    rw [hfits.stands.start, place_append_of_not_mem x hmem]
    rfl
  have hcount : (x ++ p.text).count '\n' = x.count '\n' + 1 := by
    simp [Piece.text, htext, List.count_eq_zero_of_not_mem hmem]
  have hlast : lastRow (x ++ p.text) = [] := by
    rw [Piece.text, htext, ← List.append_assoc, lastRow_append_newline]
    rfl
  have hstart := offset_row x (p.text ++ rest) hx
  have hstop := offset_row (x ++ p.text) rest hlast
  rw [hcount] at hstop
  rw [hrow, hs]
  exact ⟨by simpa using hstart, hstop⟩

private theorem edits_within {before : List Numbered} {after : List Token} {index : Nat}
    {es : List Edit}
    (hfits : p.Fits depth x rest) (hs : s = x ++ p.text ++ rest)
    (hblank : index ∈ dropped → '\n' ∉ p.gap ∧ lastRow x = [] ∧ p.token.text = ['\n'])
    (h : Site.edits o s reported dropped ⟨index, before, p.token, after⟩ = .ok es) :
    es = [] ∨ ∃ e, es = [e] ∧ x.size ≤ e.start ∧ e.start ≤ e.stop ∧ e.stop ≤ (x ++ p.text).size := by
  rw [Site.edits] at h
  split at h
  · rename_i hrewritten
    have hstop := offset_stop hfits hs (kind_of_isRewritten hrewritten)
    rw [offset_start hfits hs, hstop] at h
    cases hformat : (Docstring.format o p.token.lineIndent p.token.text).result with
    | error fault =>
      rw [hformat] at h
      cases h
    | ok text =>
      rw [hformat] at h
      cases h
      refine Or.inr ⟨_, rfl, ?_, ?_, ?_⟩
      · simp
      · simp
      · simp [Piece.text]
  · split at h
    · rename_i hindex
      obtain ⟨hmem, hx, htext⟩ := hblank hindex
      obtain ⟨hstart, hstop⟩ := offset_blank hfits hs hmem hx htext
      rw [hstart, hstop] at h
      cases h
      exact Or.inr ⟨_, rfl, Nat.le_refl _, by simp, Nat.le_refl _⟩
    · cases h
      exact Or.inl rfl

end Pieces

section Runs

/-- What lies ahead after the text `x` and the tokens `pre`: the pieces `ps` up to the end of the
source, and the tokens that close it. -/
structure Ahead (s : Text) (tokens closing pre : List Token) (x : Text) (ps : List Piece)
    (last : Nat) : Prop where
  source : s = x ++ spell ps
  tokens : tokens = pre ++ (ps.map Piece.token ++ closing)
  laid : Laid (depthOf pre) x ps [] last
  gaps : ∀ p ∈ ps, '\n' ∉ p.gap

variable {o : Options} {reported dropped : List Nat} {s x : Text} {tokens closing pre : List Token}
  {ps : List Piece} {p : Piece} {last : Nat} {c : Cursor} {before : List Numbered}

theorem Ahead.fits (h : Ahead s tokens closing pre x (p :: ps) last) :
    p.Fits (depthOf pre) x (spell ps) := by
  cases h.laid with
  | cons hfits _ => simpa using hfits

theorem Ahead.source_cons (h : Ahead s tokens closing pre x (p :: ps) last) :
    s = x ++ p.text ++ spell ps := by
  rw [h.source, spell_cons, Piece.text]
  simp

theorem Ahead.step (h : Ahead s tokens closing pre x (p :: ps) last) :
    Ahead s tokens closing (pre ++ [p.token]) (x ++ p.text) ps last := by
  refine ⟨h.source_cons, ?_, ?_, fun q hq => h.gaps q (List.mem_cons_of_mem p hq)⟩
  · rw [h.tokens]
    simp
  · cases h.laid with
    | cons _ hrest =>
      rw [depthOf, List.foldl_append]
      exact hrest

theorem Ahead.blank (h : Ahead s tokens closing pre x (p :: ps) last) (hcr : '\r' ∉ s)
    (hend : lastRow s = []) (hdropped : ∀ i ∈ dropped, IsBlankAt tokens i)
    (hindex : pre.length ∈ dropped) :
    '\n' ∉ p.gap ∧ lastRow x = [] ∧ p.token.text = ['\n'] := by
  obtain ⟨hblank, hdepth⟩ := (hdropped _ hindex).of_split h.tokens
  have hgap := h.gaps p (by simp)
  have hfits := h.fits
  rw [hdepth] at hfits
  refine ⟨hgap, blank_piece hfits hblank hgap ?_ ?_⟩
  · intro hmem
    apply hcr
    rw [h.source_cons, Piece.text]
    simp [hmem]
  · intro hnil
    rw [← hend, h.source_cons, hnil, List.append_nil]

private theorem before_cons (hfits : p.Fits (depthOf pre) x (spell ps))
    (hbefore : ∀ n ∈ before, n.token.kind ≠ .encoding) :
    ∀ n ∈ ⟨pre.length, p.token⟩ :: before, Token.kind n.token ≠ .encoding := by
  intro n hn
  rcases List.mem_cons.mp hn with rfl | hn
  · exact hfits.lawful.kind_ne_encoding
  · exact hbefore n hn

private theorem map_step {formatted : Except Fault (List Token)} {edits : Except Fault (List Edit)}
    {f g : List Token → Text} {t : Token} {es : List Edit}
    (h : formatted.map f = edits.map (splice s))
    (hstep : ∀ ts more, f ts = splice s more → g (t :: ts) = splice s (es ++ more)) :
    (formatted.map (t :: ·)).map g = (edits.map (es ++ ·)).map (splice s) := by
  cases formatted with
  | error fault =>
    cases edits with
    | error fault' =>
      simp only [Except.map, Except.error.injEq] at h ⊢
      exact h
    | ok more => cases h
  | ok ts =>
    cases edits with
    | error fault => cases h
    | ok more =>
      simp only [Except.map, Except.ok.injEq] at h ⊢
      exact hstep ts more h

private theorem splice_sitesFrom (hcr : '\r' ∉ s) (hend : lastRow s = [])
    (hdropped : ∀ i ∈ dropped, IsBlankAt tokens i)
    (hkinds : ∀ t ∈ closing, t.kind ≠ .string ∧ t.kind ≠ .nl ∧ t.kind ≠ .encoding)
    (hclosing : ∀ c : Cursor, c.credit = [] → renderFrom c closing = [])
    (h : Ahead s tokens closing pre x ps last) (hat : c.At x (spell ps))
    (hbefore : ∀ n ∈ before, n.token.kind ≠ .encoding) :
    (formatSites o reported
        (sitesFrom pre.length before (ps.map Piece.token ++ closing))).result.map
        (fun ts => x ++ renderFrom c (withoutIndices dropped pre.length ts)) =
      (collectEdits o s reported dropped
        (sitesFrom pre.length before (ps.map Piece.token ++ closing))).map (splice s) := by
  -- Whether a token is rewritten, dropped or kept, the cursor is where the source before the next
  -- piece ends; edits further on do not reach back into that part.
  induction ps generalizing pre x c before with
  | nil =>
    obtain ⟨hformat, hkept, hedits⟩ := @formatSites_of_plain o reported dropped s tokens pre closing
      before hdropped h.tokens hkinds hbefore
    rw [List.map_nil, List.nil_append, hformat, hedits]
    simp only [Except.map, hkept]
    rw [hclosing c hat.credit_eq_nil, List.append_nil]
    have hs := h.source
    rw [spell_nil, List.append_nil] at hs
    rw [splice, List.foldr_nil, hs]
  | cons p ps ih =>
    have hfits := h.fits
    have hsource := h.source_cons
    have hkind := hfits.lawful.kind_ne_encoding
    have hstep : c.At x (p.gap ++ p.token.text ++ spell ps) := by
      rw [spell_cons] at hat
      exact hat
    have hnext := fun c' hat' => @ih (x ++ p.text) (pre ++ [p.token]) c'
      (⟨pre.length, p.token⟩ :: before) h.step hat' (before_cons hfits hbefore)
    rw [List.length_append, List.length_singleton] at hnext
    rw [List.map_cons, List.cons_append, sitesFrom, result_formatSites_cons, collectEdits_cons,
      result_format hbefore, Site.edits]
    have hgap : c.gap p.token = p.gap := by
      have hrecovers : c.Recovers p.gap := Cursor.recovers_of_not_mem (h.gaps p (by simp))
      rw [hstep.gap_eq hfits.stands]
      exact hrecovers
    have hadvance : (c.advance p.token).At (x ++ p.text) (spell ps) := by
      have hadvance := hstep.advance hfits (by
        have hcr' := hcr
        rw [hsource, Piece.text] at hcr'
        simpa using hcr')
      rw [List.append_assoc x] at hadvance
      exact hadvance
    by_cases hrewritten : Site.IsRewritten o reported
        ⟨pre.length, before, p.token, ps.map Piece.token ++ closing⟩
    · -- A docstring: its new text takes the place of the old one.
      have hstring := kind_of_isRewritten hrewritten
      have hindex : pre.length ∉ dropped := by
        intro hindex
        have hblank := ((hdropped _ hindex).of_split h.tokens).1
        rw [kind_of_isBlankLine hblank] at hstring
        cases hstring
      rw [if_pos hrewritten, if_pos hrewritten, offset_start hfits hsource,
        offset_stop hfits hsource hstring]
      cases (Docstring.format o p.token.lineIndent p.token.text).result with
      | error fault => rfl
      | ok text =>
        apply map_step (hnext _ hadvance)
        intro ts more hrest
        change x ++ renderFrom c (withoutIndices dropped pre.length (p.token.withText text :: ts)) =
          splice s (⟨(x ++ p.gap).size, (x ++ p.gap ++ p.token.text).size, text⟩ :: more)
        have hsplit : x ++ p.text = x ++ p.gap ++ p.token.text := (List.append_assoc ..).symm
        rw [withoutIndices, if_neg (by simpa using hindex), renderFrom_withText hkind, hgap,
          splice_cons, ← hrest, hsplit, Edit.apply_between]
        simp only [List.append_assoc]
    · rw [if_neg hrewritten, if_neg hrewritten]
      by_cases hindex : pre.length ∈ dropped
      · -- A blank line: the cursor skips it.
        obtain ⟨hmem, hx, htext⟩ := h.blank hcr hend hdropped hindex
        obtain ⟨hstart, hstop⟩ := offset_blank hfits hsource hmem hx htext
        have hskip : c.At (x ++ p.text) (spell ps) := by
          rw [← Piece.text] at hstep
          exact hstep.skip hfits.gap hmem hx htext
        rw [if_pos hindex, hstart, hstop]
        apply map_step (hnext c hskip)
        intro ts more hrest
        rw [withoutIndices, if_pos (by simpa using hindex), List.singleton_append, splice_cons,
          ← hrest, Edit.apply_between, List.append_nil]
      · rw [if_neg hindex]
        apply map_step (hnext _ hadvance)
        intro ts more hrest
        rw [withoutIndices, if_neg (by simpa using hindex), renderFrom_cons hkind, hgap,
          List.nil_append, ← hrest, Piece.text]
        simp

private theorem separate_collectEdits (hcr : '\r' ∉ s) (hend : lastRow s = [])
    (hdropped : ∀ i ∈ dropped, IsBlankAt tokens i)
    (hkinds : ∀ t ∈ closing, t.kind ≠ .string ∧ t.kind ≠ .nl ∧ t.kind ≠ .encoding)
    (h : Ahead s tokens closing pre x ps last)
    (hbefore : ∀ n ∈ before, n.token.kind ≠ .encoding) {es : List Edit}
    (hes : collectEdits o s reported dropped
      (sitesFrom pre.length before (ps.map Piece.token ++ closing)) = .ok es) :
    Separate s.size x.size es := by
  induction ps generalizing pre x before es with
  | nil =>
    obtain ⟨-, -, hedits⟩ := @formatSites_of_plain o reported dropped s tokens pre closing before
      hdropped h.tokens hkinds hbefore
    rw [List.map_nil, List.nil_append, hedits] at hes
    cases hes
    have hs := h.source
    rw [spell_nil, List.append_nil] at hs
    exact Nat.le_of_eq (by rw [hs])
  | cons p ps ih =>
    have hfits := h.fits
    rw [List.map_cons, List.cons_append, sitesFrom, collectEdits_cons] at hes
    cases hfirst : Site.edits o s reported dropped
        ⟨pre.length, before, p.token, ps.map Piece.token ++ closing⟩ with
    | error fault =>
      rw [hfirst] at hes
      cases hes
    | ok first =>
      rw [hfirst] at hes
      simp only [Except.bind] at hes
      cases hmore : collectEdits o s reported dropped (sitesFrom (pre.length + 1)
          (⟨pre.length, p.token⟩ :: before) (ps.map Piece.token ++ closing)) with
      | error fault =>
        rw [hmore] at hes
        cases hes
      | ok more =>
        rw [hmore] at hes
        cases hes
        have hlength : pre.length + 1 = (pre ++ [p.token]).length := by simp
        rw [hlength] at hmore
        have hrest := ih h.step (before_cons hfits hbefore) hmore
        rcases edits_within hfits h.source_cons (h.blank hcr hend hdropped) hfirst with
          rfl | ⟨e, rfl, hlo, hle, hhi⟩
        · exact hrest.mono (by simp)
        · exact ⟨hlo, hle, hrest.mono hhi⟩

theorem Ahead.run {qs : List Piece} (h : Ahead s tokens closing pre x (qs ++ ps) last) :
    Ahead s tokens closing (pre ++ qs.map Piece.token) (x ++ spell qs) ps last := by
  induction qs generalizing pre x with
  | nil => simpa using h
  | cons q qs ih =>
    have hrest := ih h.step
    simpa [Piece.text] using hrest

theorem Ahead.exists_split {post : List Token} {t : Token}
    (h : Ahead s tokens closing [] [] ps last)
    (hkinds : ∀ t ∈ closing, t.kind ≠ .string ∧ t.kind ≠ .nl ∧ t.kind ≠ .encoding)
    (htokens : tokens = pre ++ t :: post) (ht : t.kind = .string ∨ t.kind = .nl) :
    ∃ qs p rs, ps = qs ++ p :: rs ∧ qs.map Piece.token = pre ∧ p.token = t := by
  have hscanned := h.tokens
  rw [List.nil_append] at hscanned
  have hmem : t ∉ closing := by
    intro hmem
    rcases ht with hkind | hkind
    · exact (hkinds t hmem).1 hkind
    · exact (hkinds t hmem).2.1 hkind
  rcases List.append_eq_append_iff.mp (htokens.symm.trans hscanned) with
    ⟨mid, hmid, hpost⟩ | ⟨mid, -, hmore⟩
  · cases mid with
    | nil =>
      rw [List.nil_append] at hpost
      exact absurd (hpost ▸ List.mem_cons_self) hmem
    | cons u mid =>
      obtain ⟨rfl, -⟩ := List.cons.inj hpost
      obtain ⟨qs, rs, rfl, rfl, hrs⟩ := List.map_eq_append_iff.mp hmid
      obtain ⟨p, rs, rfl, rfl, -⟩ := List.map_eq_cons_iff.mp hrs
      exact ⟨qs, p, rs, rfl, rfl, rfl⟩
  · exact absurd (hmore ▸ List.mem_append_right mid List.mem_cons_self) hmem

theorem Ahead.exists_piece {post : List Token} {t : Token}
    (h : Ahead s tokens closing [] [] ps last)
    (hkinds : ∀ t ∈ closing, t.kind ≠ .string ∧ t.kind ≠ .nl ∧ t.kind ≠ .encoding)
    (htokens : tokens = pre ++ t :: post) (ht : t.kind = .string ∨ t.kind = .nl) :
    ∃ x p rs, p.token = t ∧ Ahead s tokens closing pre x (p :: rs) last := by
  obtain ⟨qs, p, rs, rfl, rfl, rfl⟩ := h.exists_split hkinds htokens ht
  exact ⟨_, p, rs, rfl, h.run⟩

end Runs

section Sources

variable {s : Text} {tokens : List Token}

theorem exists_ahead (hcr : '\r' ∉ s) (hend : lastRow s = []) (h : tokenize s = .ok tokens)
    (hnever : NeverContinued .start 1 s.rawLines) :
    ∃ ps closing last, Ahead s tokens closing [] [] ps last ∧
      (∀ t ∈ closing, t.kind ≠ .string ∧ t.kind ≠ .nl ∧ t.kind ≠ .encoding) ∧
      ∀ c : Cursor, c.credit = [] → renderFrom c closing = [] := by
  obtain ⟨scanned, st, hscan, -, hcontinued, hpending, htokens⟩ := tokenize_eq_ok h
  have hlines : s.rawLines.take s.rawLines.length = s.rawLines := List.take_length
  rw [← hlines] at hscan hnever
  obtain ⟨ps, tail, pend, hreads, hgaps⟩ := reads_of_scanLines hscan
  rw [hlines, Text.flatten_rawLines, List.drop_length] at hreads
  obtain ⟨rfl, htail, -⟩ := closed_of_reads hcr hcontinued hpending hreads
  have hs : s = spell ps ++ tail := by simpa using hreads.text
  have hnil : tail = [] := by
    by_contra hne
    rw [hs] at hend
    exact lastRow_append_ne_nil (spell ps) hne htail hend
  subst hnil
  have hscanned : scanned = ps.map Piece.token := hreads.tokens
  refine ⟨ps, closingTokens scanned st s.rawLines.length (s.rawLines.getLast?.getD []), st.depth,
    ⟨?_, ?_, ?_, (hgaps hnever).1⟩, ?_, ?_⟩
  · simpa using hs
  · rw [htokens, hscanned, List.nil_append]
  · exact hreads.laid
  · intro t ht
    rcases kind_of_mem_closingTokens ht with hkind | hkind | hkind <;> simp [hkind]
  · intro c hcredit
    obtain ⟨n, hn⟩ :=
      renderFrom_closingTokens c scanned st s.rawLines.length (s.rawLines.getLast?.getD [])
    rw [hn, hcredit]
    simp

theorem result_tryFormat (o : Options) (hcr : '\r' ∉ s) :
    (tryFormat o s).result = (formatCode o s).result := by
  rw [tryFormat]
  by_cases hempty : s.isEmpty = true
  · rw [if_pos hempty, List.isEmpty_iff.mp hempty]
    rfl
  · rw [if_neg hempty]
    simp only [Text.dominant_terminatedLines hcr, Text.terminateAll_terminatedLines hcr]

theorem result_formatCode (o : Options) (h : tokenize s = .ok tokens) :
    (formatCode o s).result =
      (formatSites o ((blocks tokens).map Block.docstring) (sites tokens)).result.map fun ts =>
        .ok (render (withoutIndices (droppedBlanks o (blocks tokens) (sites tokens)) 0 ts)) := by
  rw [formatCode, h]
  simp only [formatTokens, bind, Traced.bind, Traced.reportAll]
  cases (formatSites o ((blocks tokens).map Block.docstring) (sites tokens)).result with
  | error fault => rfl
  | ok ts => rfl

private theorem map_ok_congr {α β γ : Type} {a : Except Fault α} {b : Except Fault β} {f : α → Text}
    {g : β → Text} (h : a.map f = b.map g) :
    a.map (fun x => (.ok (f x) : Except γ Text)) = b.map fun y => .ok (g y) := by
  have hok := congrArg (Except.map (@Except.ok γ Text)) h
  cases a <;> cases b <;> exact hok

/-- Formatting a source splices it: each docstring in scope is replaced by its formatted text, and
the whole physical line of each blank line that is dropped is deleted.  The edits are in order and
do not overlap, and they stand where the tokens and the lines stand. -/
theorem tryFormat_eq_splice (o : Options) (hcr : '\r' ∉ s)
    (hend : s = [] ∨ s.endsWithNewline = true) (h : tokenize s = .ok tokens)
    (hnever : NeverContinued .start 1 s.rawLines) :
    (tryFormat o s).result = (sourceEdits o s tokens).map (fun es => .ok (splice s es)) ∧
      (∀ es, sourceEdits o s tokens = .ok es → Separate s.size 0 es) ∧
      (∀ site ∈ sites tokens, site.IsRewritten o ((blocks tokens).map Block.docstring) →
        s.extract? (offset s site.token.start) (offset s site.token.stop) =
          some site.token.text) ∧
      ∀ site ∈ sites tokens, site.index ∈ droppedBlanks o (blocks tokens) (sites tokens) →
        site.token.isBlankLine = true ∧
          s.rawLines[site.token.start.row - 1]? = some site.token.line := by
  have hrow : lastRow s = [] := by
    rcases hend with rfl | hend
    · rfl
    · obtain ⟨u, rfl⟩ := List.isSuffixOf_iff_suffix.mp hend
      exact lastRow_append_newline u []
  obtain ⟨ps, closing, last, hahead, hkinds, hclosing⟩ := exists_ahead hcr hrow h hnever
  have hdropped : ∀ i ∈ droppedBlanks o (blocks tokens) (sites tokens), IsBlankAt tokens i :=
    fun i hi => blank_of_dropped h hi
  have htokens : ps.map Piece.token ++ closing = tokens := hahead.tokens.symm
  refine ⟨?_, ?_, ?_, ?_⟩
  · have hrun := @splice_sitesFrom o ((blocks tokens).map Block.docstring) _ s [] tokens closing []
      ps last .start [] hcr hrow hdropped hkinds hclosing hahead (Cursor.at_start (spell ps)) (by simp)
    rw [htokens] at hrun
    rw [result_tryFormat o hcr, result_formatCode o h]
    exact map_ok_congr hrun
  · intro es hes
    have hseparate := @separate_collectEdits o ((blocks tokens).map Block.docstring) _ s [] tokens
      closing [] ps last [] hcr hrow hdropped hkinds hahead (by simp) es
    rw [htokens] at hseparate
    exact hseparate hes
  · intro site hsite hrewritten
    obtain ⟨pre, hsplit, -, -⟩ := mem_sites hsite
    have hstring := kind_of_isRewritten hrewritten
    obtain ⟨x, p, rs, hp, hpiece⟩ := hahead.exists_piece hkinds hsplit (Or.inl hstring)
    rw [← hp] at hstring ⊢
    rw [offset_start hpiece.fits hpiece.source_cons,
      offset_stop hpiece.fits hpiece.source_cons hstring, hpiece.source_cons]
    have hextract := Text.extract?_size (x ++ p.gap) p.token.text (spell rs)
    rw [← Text.size_append] at hextract
    rw [Piece.text, ← hextract]
    simp only [List.append_assoc]
  · intro site hsite hindex
    obtain ⟨pre, hsplit, hlength, -⟩ := mem_sites hsite
    rw [hlength] at hindex
    obtain ⟨hblank, -⟩ := (hdropped _ hindex).of_split hsplit
    obtain ⟨x, p, rs, hp, hpiece⟩ :=
      hahead.exists_piece hkinds hsplit (Or.inr (kind_of_isBlankLine hblank))
    obtain ⟨hmem, hx, htext⟩ := hpiece.blank hcr hrow hdropped hindex
    refine ⟨hblank, ?_⟩
    have hplace : p.token.start.row - 1 = x.count '\n' := by
      rw [hpiece.fits.stands.start, place_append_of_not_mem x hmem]
      rfl
    have hline : p.token.line = p.gap ++ ['\n'] := by
      rw [hpiece.fits.stands.line, lastRow_append_of_not_mem x hmem, hx, htext]
      simp [restOfRow]
    rw [← hp, hplace, hline, hpiece.source_cons, Piece.text, htext]
    exact rawLines_of_row hx hmem (spell rs)

theorem tryFormat_eq_splice_of_class :
    let s : Text := "# note \\\n\nclass A:\n\n    '''do it'''\n\n    x = (1,\n\n  2)\n".toList
    let es : List Edit := [⟨19, 20, []⟩, ⟨24, 35, "\"\"\"Do it.\"\"\"".toList⟩, ⟨36, 37, []⟩]
    '\r' ∉ s ∧ s.endsWithNewline = true ∧ NeverContinued .start 1 s.rawLines ∧
      ∃ tokens, tokenize s = .ok tokens ∧ sourceEdits {} s tokens = .ok es ∧
        (tryFormat {} s).result = .ok (.ok (splice s es)) ∧ Separate s.size 0 es := by
  intro s es
  have hcr : '\r' ∉ s := by decide
  have hend : s.endsWithNewline = true := by decide
  have hnever : NeverContinued .start 1 s.rawLines := by decide +kernel
  have hedits : (tokenize s).toOption.map (fun tokens => (sourceEdits {} s tokens).toOption) =
      some (some es) := by
    decide +kernel
  cases htokens : tokenize s with
  | error cause =>
    rw [htokens] at hedits
    cases hedits
  | ok tokens =>
    rw [htokens] at hedits
    cases hsource : sourceEdits {} s tokens with
    | error fault =>
      simp [Except.toOption, hsource] at hedits
    | ok es' =>
      have hes : es' = es := by simpa [Except.toOption, hsource] using hedits
      obtain ⟨hresult, hseparate, -⟩ :=
        tryFormat_eq_splice {} hcr (Or.inr hend) htokens hnever
      rw [hsource, hes] at hresult
      rw [hes] at hsource
      exact ⟨hcr, hend, hnever, tokens, rfl, hsource, hresult, hseparate es hsource⟩

end Sources

end DocstringFormat.Source
