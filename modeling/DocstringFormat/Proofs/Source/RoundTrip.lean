import DocstringFormat.Proofs.Source.Recovery

/-!
When a source survives being taken apart into tokens and put together again.

The scanner and the cursor go through the source line by line.  As long as every continued line can
be recovered, all gaps so far come out as they are (`kept_scanLines`).  The tokens that close a
source emit nothing if a token reaches its end (`renderFrom_closingTokens`).  The main result,
`render_eq_source_iff`, says that nothing else is needed, and that nothing less will do.
-/

set_option autoImplicit false

namespace DocstringFormat.Source

section Lines

variable {s line : Text} {k : Nat} {st : Scanner} {tokens : List Token} {ps : List Piece}
  {tail pend : Text}

private theorem flatten_take_append_drop (s : Text) (k : Nat) :
    (s.rawLines.take k).flatten ++ (s.rawLines.drop k).flatten = s := by
  rw [← List.flatten_append, List.take_append_drop, Text.flatten_rawLines]

private theorem flatten_take_succ (hline : s.rawLines[k]? = some line) :
    (s.rawLines.take (k + 1)).flatten = (s.rawLines.take k).flatten ++ line := by
  rw [List.take_add_one, hline]
  simp

private theorem drop_eq_cons (hline : s.rawLines[k]? = some line) :
    s.rawLines.drop k = line :: s.rawLines.drop (k + 1) := by
  obtain ⟨hk, rfl⟩ := List.getElem?_eq_some_iff.mp hline
  exact List.drop_eq_getElem_cons hk

private theorem isRow_of_line (hline : s.rawLines[k]? = some line) :
    line ≠ [] ∧ IsRow line (s.rawLines.drop (k + 1)).flatten ∧
      lastRow (s.rawLines.take k).flatten = [] ∧ (s.rawLines.take k).flatten.count '\n' = k := by
  obtain ⟨hk, -⟩ := List.getElem?_eq_some_iff.mp hline
  have hrows := (rows_rawLines s).drop k
  rw [drop_eq_cons hline] at hrows
  obtain ⟨hne, hrow, -⟩ := hrows
  rw [List.append_nil] at hrow
  have hcomplete := (rows_rawLines s).complete (x := []) rfl hk
  simp only [List.nil_append, List.count_nil, Nat.zero_add] at hcomplete
  exact ⟨hne, hrow, hcomplete⟩

theorem LineScan.Reads.kind_ne_encoding {l : LineScan} {depth : Nat} {x gap y rest : Text}
    (h : l.Reads depth x gap y rest ps tail pend) : ∀ t ∈ l.tokens, t.kind ≠ .encoding := by
  intro t ht
  rw [h.tokens] at ht
  obtain ⟨p, hp, rfl⟩ := List.mem_map.mp ht
  exact h.laid.kind_ne_encoding p hp

private theorem at_of_reads {y rest : Text} (hcr : '\r' ∉ y ++ rest)
    (h : (st.lineScan tokens).Reads 0 [] [] y rest ps tail pend) :
    (Cursor.start.after tokens).At (spell ps) (tail ++ pend ++ rest) := by
  have htokens : tokens = ps.map Piece.token := h.tokens
  have htext : spell ps ++ (tail ++ pend ++ rest) = y ++ rest := by
    have hread := h.text
    rw [List.nil_append, List.append_assoc] at hread
    rw [← List.append_assoc, ← hread]
  have hat := (Cursor.at_start (spell ps ++ (tail ++ pend ++ rest))).after h.laid
    (by rw [List.nil_append, htext]; exact hcr)
  rw [htokens]
  exact hat

private theorem recoverable_iff_recovers (hcr : '\r' ∉ s) (hline : s.rawLines[k]? = some line)
    (h : (st.lineScan tokens).Reads 0 [] [] (s.rawLines.take (k + 1)).flatten
      (s.rawLines.drop (k + 1)).flatten ps tail pend)
    (hcontinued : st.continued = true) :
    Recoverable tokens (k + 1) line ↔ (Cursor.start.after tokens).Recovers tail := by
  have hpend : pend = [] := by
    cases hpending : st.pending with
    | none => exact h.remembers.closed hpending
    | some p =>
      have hopened := (h.remembers.opened p hpending).2.2
      exact absurd (hcontinued.symm.trans hopened) (by simp)
  subst hpend
  obtain ⟨hne, hrow, hbefore, hcount⟩ := isRow_of_line hline
  have hread : (s.rawLines.take k).flatten ++ line = spell ps ++ tail := by
    have htext := h.text
    rw [flatten_take_succ hline] at htext
    simpa using htext
  have hat := at_of_reads (by rw [flatten_take_append_drop]; exact hcr) h
  rw [List.append_nil] at hat
  have hsource : spell ps ++ tail ++ (s.rawLines.drop (k + 1)).flatten = s := by
    rw [← hread, ← flatten_take_succ hline, flatten_take_append_drop]
  exact recoverable_iff (by rw [hsource]; exact hcr) hat h.remembers.gap
    (h.remembers.joined hcontinued) hbefore hcount hread hrow hne

/-- Every continued line of a source can be recovered from the tokens up to its end. -/
def ContinuationsRecoverable (s : Text) : Prop :=
  ∀ k line tokens st, s.rawLines[k]? = some line →
    scanLines .start 1 (s.rawLines.take (k + 1)) = .ok (tokens, st) → st.continued = true →
    Recoverable tokens (k + 1) line

private theorem kept_scanLine {st' : Scanner} {more : List Token} (hcr : '\r' ∉ s)
    (hline : s.rawLines[k]? = some line)
    (hreads : (st.lineScan tokens).Reads 0 [] [] (s.rawLines.take k).flatten
      (s.rawLines.drop k).flatten ps tail pend)
    (hkept : Kept .start ps) (htail : (Cursor.start.after tokens).Recovers tail)
    (hscan : scanLine st (k + 1) line = .ok (more, st'))
    (hcontinued : st'.continued = true → Recoverable (tokens ++ more) (k + 1) line) :
    ∃ qs tail' pend', (st'.lineScan (tokens ++ more)).Reads 0 [] []
        (s.rawLines.take (k + 1)).flatten (s.rawLines.drop (k + 1)).flatten qs tail' pend' ∧
      Kept .start qs ∧ (Cursor.start.after (tokens ++ more)).Recovers tail' := by
  obtain ⟨hne, hrow, hbefore, hcount⟩ := isRow_of_line hline
  have htokens : tokens = ps.map Piece.token := hreads.tokens
  have hread : spell ps ++ tail ++ pend = (s.rawLines.take k).flatten := by
    have htext := hreads.text
    simpa using htext.symm
  have hremembers : Remembers st.continued st.pending (spell ps) tail pend
      (line ++ (s.rawLines.drop (k + 1)).flatten) := by
    have h := hreads.remembers
    rw [drop_eq_cons hline] at h
    exact h
  obtain ⟨qs, tail', pend', hnext, hwithin⟩ := readsLine_scanLine hscan hremembers
    (by rw [hread, hbefore]) (by rw [hread]; simp [hcount]) hrow hne
  have hall : (st'.lineScan (tokens ++ more)).Reads 0 [] [] (s.rawLines.take (k + 1)).flatten
      (s.rawLines.drop (k + 1)).flatten (ps ++ qs) tail' pend' := by
    have hlaid := hreads.laid
    rw [drop_eq_cons hline] at hlaid
    refine LineScan.Reads.prepend (l := st'.lineScan more) htokens ?_ hnext ?_ List.nil_prefix
    · simpa [Scanner.lineScan] using hlaid
    · rw [flatten_take_succ hline, ← hread]
      simp
  have hat := at_of_reads (by rw [flatten_take_append_drop]; exact hcr) hreads
  have htext : tail ++ pend ++ (s.rawLines.drop k).flatten =
      spell qs ++ (tail' ++ pend' ++ (s.rawLines.drop (k + 1)).flatten) := by
    have h := hnext.text
    rw [drop_eq_cons hline, List.flatten_cons, ← List.append_assoc, List.append_assoc tail, h]
    simp
  have hsource : spell ps ++ (tail ++ pend ++ (s.rawLines.drop k).flatten) = s := by
    rw [← List.append_assoc, ← List.append_assoc, hread, flatten_take_append_drop]
  rw [htext] at hat hsource
  obtain ⟨hkept', hrecovers⟩ := kept_of_withinRow hat hnext.laid
    (by rw [List.append_assoc, hsource]; exact hcr) hwithin htail
  have hmore : more = qs.map Piece.token := hnext.tokens
  refine ⟨ps ++ qs, tail', pend', hall, ?_, ?_⟩
  · rw [kept_append, ← htokens]
    exact ⟨hkept, hkept'⟩
  · cases hjoined : st'.continued with
    | true => exact (recoverable_iff_recovers hcr hline hall hjoined).mp (hcontinued hjoined)
    | false =>
      have h := hrecovers hjoined
      rw [← hmore, ← Cursor.after_append] at h
      exact h

private theorem kept_scanLines (hcr : '\r' ∉ s) (hs : ContinuationsRecoverable s)
    (h : scanLines .start 1 (s.rawLines.take k) = .ok (tokens, st)) :
    ∃ ps tail pend, (st.lineScan tokens).Reads 0 [] [] (s.rawLines.take k).flatten
        (s.rawLines.drop k).flatten ps tail pend ∧
      Kept .start ps ∧ (Cursor.start.after tokens).Recovers tail := by
  induction k generalizing tokens st with
  | zero =>
    cases h
    exact ⟨[], [], [], ⟨rfl, rfl, .nil, remembers_start _, List.nil_prefix⟩, True.intro,
      Cursor.recovers_of_not_mem (by simp)⟩
  | succ k ih =>
    cases hline : s.rawLines[k]? with
    | none =>
      have hlength := List.getElem?_eq_none_iff.mp hline
      have htake : s.rawLines.take (k + 1) = s.rawLines.take k := by
        rw [List.take_of_length_le hlength, List.take_of_length_le (by omega)]
      have hdrop : s.rawLines.drop (k + 1) = s.rawLines.drop k := by
        rw [List.drop_of_length_le hlength, List.drop_of_length_le (by omega)]
      rw [htake] at h
      rw [htake, hdrop]
      exact ih h
    | some line =>
      have hrecoverable := hs k line tokens st hline h
      obtain ⟨hk, -⟩ := List.getElem?_eq_some_iff.mp hline
      rw [List.take_add_one, hline] at h
      obtain ⟨mid, before, more, hbefore, hmore, rfl⟩ := scanLines_append h
      obtain ⟨last, first, others, hfirst, hothers, rfl⟩ := scanLines_cons hmore
      cases hothers
      rw [List.append_nil] at hrecoverable ⊢
      have hlength : 1 + (s.rawLines.take k).length = k + 1 := by
        rw [List.length_take]
        omega
      rw [hlength] at hfirst
      obtain ⟨ps, tail, pend, hreads, hkept, htail⟩ := ih hbefore
      exact kept_scanLine hcr hline hreads hkept htail hfirst hrecoverable

end Lines

section Closing

variable {c : Cursor} {s tail : Text} {ps : List Piece} {tokens : List Token}

private theorem gap_of_line_eq_nil {t : Token} (ht : t.line = []) :
    c.gap t = c.credit ∨ c.gap t = [] := by
  have hspacing : ∀ lo hi, (Text.extract? [] lo hi).getD [] = [] := by
    intro lo hi
    cases lo <;> cases hi <;> simp [Text.extract?, Text.isBoundary, Text.extract, Text.takeBytes]
  simp only [Cursor.gap, ht, hspacing, ite_self, List.append_nil, Cursor.credit]
  by_cases hrow : c.place.row < t.start.row
  · simp [hrow]
  · simp [hrow]

private theorem renderFrom_of_empty {e : Token} {ts : List Token}
    (hts : ∀ t ∈ ts, t.text = [] ∧ t.line = [] ∧ isLayout t.kind = true)
    (he : e.text = [] ∧ e.line = [] ∧ e.kind = .endMarker) :
    ∃ n, renderFrom c (ts ++ [e]) = (List.replicate n c.credit).flatten := by
  induction ts generalizing c with
  | nil =>
    have hgap := gap_of_line_eq_nil (c := c) he.2.1
    have hrender : renderFrom c [e] = c.gap e := by
      rw [renderFrom_cons (by simp [he.2.2]), he.1]
      simp [renderFrom]
    rw [List.nil_append, hrender]
    rcases hgap with hgap | hgap
    · exact ⟨1, by simp [hgap]⟩
    · exact ⟨0, by simp [hgap]⟩
  | cons t ts ih =>
    obtain ⟨htext, hline, hlayout⟩ := hts t (by simp)
    obtain ⟨n, hn⟩ := ih (c := c.advance t) fun u hu => hts u (List.mem_cons_of_mem t hu)
    have hcredit : (c.advance t).credit = c.credit := by
      simp [Cursor.credit, Cursor.advance, hline, hlayout]
    have hkind : t.kind ≠ .encoding := by
      intro hkind
      simp [hkind, isLayout] at hlayout
    rw [List.cons_append, renderFrom_cons hkind, htext, List.append_nil, hn, hcredit]
    rcases gap_of_line_eq_nil (c := c) hline with hgap | hgap
    · exact ⟨n + 1, by simp [hgap, List.replicate_succ]⟩
    · exact ⟨n, by simp [hgap]⟩

theorem renderFrom_closingTokens (c : Cursor) (tokens : List Token) (st : Scanner) (rows : Nat)
    (lastLine : Text) :
    ∃ n, renderFrom c (closingTokens tokens st rows lastLine) =
      (List.replicate n c.credit).flatten := by
  apply renderFrom_of_empty
  · intro t ht
    rcases List.mem_append.mp ht with ht | ht
    · split at ht
      · rw [List.mem_singleton.mp ht]
        exact ⟨rfl, rfl, rfl⟩
      · cases ht
    · obtain ⟨_, -, rfl⟩ := List.mem_map.mp ht
      exact ⟨rfl, rfl, rfl⟩
  · exact ⟨rfl, rfl, rfl⟩

private theorem closing_cases (c : Cursor) (tokens : List Token) (st : Scanner) (rows : Nat)
    (lastLine : Text) :
    renderFrom c (closingTokens tokens st rows lastLine) = [] ∨
      (renderFrom c (closingTokens tokens st rows lastLine)).getLast? = some '\n' := by
  obtain ⟨n, hn⟩ := renderFrom_closingTokens c tokens st rows lastLine
  rw [hn]
  rcases c.getLast?_credit with hcredit | hcredit
  · exact Or.inl (by simp [hcredit])
  · cases n with
    | zero => exact Or.inl rfl
    | succ n =>
      right
      rw [List.replicate_succ', List.flatten_append, List.flatten_singleton,
        List.getLast?_append_of_ne_nil _ (by rintro hnil; simp [hnil] at hcredit), hcredit]

theorem Cursor.At.credit_eq_nil (h : c.At s []) : c.credit = [] := by
  rcases h with hwithin | hpast
  · obtain ⟨u, hline, -⟩ := hwithin.line
    have hne : lastRow s ≠ [] := by
      intro hnil
      have hcode := hwithin.code hnil
      simp [startsCode] at hcode
    have hjoined : isJoined c.line = false := by
      have hlast : c.line.getLast? ≠ some '\n' := by
        rw [hline, firstRow, List.append_nil, List.getLast?_append_of_ne_nil u hne]
        exact fun hmem => newline_not_mem_lastRow s (List.mem_of_getLast? hmem)
      rw [Bool.eq_false_iff]
      intro hjoined
      simp only [isJoined, Bool.or_eq_true, List.isSuffixOf_iff_suffix] at hjoined
      rcases hjoined with ⟨w, hw⟩ | ⟨w, hw⟩ <;> exact hlast (by simp [← hw])
    simp [Cursor.credit, hjoined]
  · exact hpast.credit

/-- A source ends with its last token. -/
def EndsInToken (s : Text) (tokens : List Token) : Prop :=
  s = [] ∨ s.getLast? = some '\n' ∨ ∃ t, tokens.getLast? = some t ∧ t.stop = place s

private theorem endsInToken_iff (htokens : tokens = ps.map Piece.token) (hs : s = spell ps ++ tail)
    (hat : (Cursor.start.after tokens).At (spell ps) tail)
    (htail : tail.getLast? ≠ some '\n') : EndsInToken s tokens ↔ tail = [] := by
  constructor
  · rintro (rfl | hnewline | ⟨t, ht, hstop⟩)
    · exact (List.append_eq_nil_iff.mp hs.symm).2
    · by_contra hne
      rw [hs, List.getLast?_append_of_ne_nil _ hne] at hnewline
      exact htail hnewline
    · have hplace := place_after tokens ht
      rw [hstop, hs] at hplace
      rcases hat with hwithin | hpast
      · exact eq_nil_of_place_eq (hplace.symm.trans hwithin.place)
      · exfalso
        have hrow := hpast.row
        rw [hplace] at hrow
        simp only [place_row, List.count_append] at hrow
        omega
  · rintro rfl
    rw [List.append_nil] at hs
    by_cases hrow : lastRow s = []
    · rcases lastRow_eq_nil hrow with hnil | ⟨u, hu⟩
      · exact Or.inl hnil
      · exact Or.inr (Or.inl (by simp [hu]))
    · rw [← hs] at hat
      rcases hat with hwithin | hpast
      · cases hlast : tokens.getLast? with
        | none =>
          rw [List.getLast?_eq_none_iff.mp hlast] at htokens
          rw [List.map_eq_nil_iff.mp htokens.symm] at hs
          exact Or.inl hs
        | some t =>
          refine Or.inr (Or.inr ⟨t, hlast, ?_⟩)
          rw [← place_after tokens hlast, hwithin.place]
      · exact absurd hpast.start hrow

end Closing

section RoundTrip

variable {s : Text} {tokens : List Token} {st : Scanner} {ps : List Piece} {tail : Text}

theorem Cursor.Recovers.of_append {c : Cursor} {x g h rest : Text} (hat : c.At x rest)
    (hrest : rest ≠ []) (hg : g.getLast? = some '\n') (hgap : c.Recovers (g ++ h)) :
    c.Recovers g := by
  have hmem : '\n' ∈ g := List.mem_of_getLast? hg
  have hpos := List.count_pos_iff.mpr hmem
  have hcount := congrArg (List.count '\n') hgap
  rw [if_pos (List.mem_append_left h hmem), List.count_append, List.count_append,
    List.count_eq_zero_of_not_mem (newline_not_mem_lastRow (g ++ h))] at hcount
  have hcredit : c.credit.count '\n' ≤ 1 := by
    rcases hat.credit_cases hrest with hnil | ⟨v, hv, hvmem⟩
    · simp [hnil]
    · simp [hv, List.count_eq_zero_of_not_mem hvmem]
  have hh : '\n' ∉ h := List.count_eq_zero.mp (by omega)
  exact (Cursor.recovers_append_iff hh).mp hgap

private theorem kept_of_render_eq (hcr : '\r' ∉ s)
    (hreads : (st.lineScan tokens).Reads 0 [] [] s [] ps tail [])
    (hat : (Cursor.start.after tokens).At (spell ps) tail) (htail : tail.getLast? ≠ some '\n')
    {rows : Nat} {lastLine : Text}
    (hrender : render (tokens ++ closingTokens tokens st rows lastLine) = s) :
    Kept .start ps ∧ tail = [] := by
  have htokens : tokens = ps.map Piece.token := hreads.tokens
  have hs : s = spell ps ++ tail := by
    have htext := hreads.text
    simpa using htext
  have hlaid := hreads.laid
  simp only [List.append_nil] at hlaid
  have hkinds : ∀ t ∈ tokens, t.kind ≠ .encoding := hreads.kind_ne_encoding
  have hcases := closing_cases (Cursor.start.after tokens) tokens st rows lastLine
  have hclosing := renderFrom_closingTokens (Cursor.start.after tokens) tokens st rows lastLine
  rw [render, renderFrom_append hkinds] at hrender
  generalize renderFrom (Cursor.start.after tokens)
    (closingTokens tokens st rows lastLine) = w at hrender hcases hclosing
  have hcount : w.count '\n' ≤ tail.count '\n' := by
    rcases hcases with rfl | hnewline
    · simp
    · -- The source ends in a line feed, so the cursor is at its end and emits nothing more.
      have hne : w ≠ [] := by
        rintro rfl
        cases hnewline
      have hlast : s.getLast? = some '\n' := by
        rw [← hrender, List.getLast?_append_of_ne_nil _ hne, hnewline]
      have hnil : tail = [] := (endsInToken_iff htokens hs hat htail).mp (Or.inr (Or.inl hlast))
      subst hnil
      obtain ⟨n, rfl⟩ := hclosing
      rw [hat.credit_eq_nil] at hne
      simp at hne
  rw [htokens] at hrender
  obtain ⟨hkept, rfl⟩ := kept_of_renderFrom (Cursor.at_start _) hlaid
    (by rw [List.nil_append, ← hs]; exact hcr) (hrender.trans hs) hcount
  exact ⟨hkept, hcases.resolve_right htail⟩

private theorem render_eq_of_kept (hreads : (st.lineScan tokens).Reads 0 [] [] s [] ps [] [])
    (hat : (Cursor.start.after tokens).At (spell ps) []) (hkept : Kept .start ps) {rows : Nat}
    {lastLine : Text} : render (tokens ++ closingTokens tokens st rows lastLine) = s := by
  have htokens : tokens = ps.map Piece.token := hreads.tokens
  have hs : s = spell ps := by
    have htext := hreads.text
    simpa using htext
  have hkinds : ∀ p ∈ ps, p.token.kind ≠ .encoding := hreads.laid.kind_ne_encoding
  obtain ⟨n, hn⟩ := renderFrom_closingTokens (Cursor.start.after tokens) tokens st rows lastLine
  rw [hat.credit_eq_nil] at hn
  have hkinds' : ∀ t ∈ tokens, t.kind ≠ .encoding := hreads.kind_ne_encoding
  rw [render, renderFrom_append hkinds', hn, htokens, renderFrom_of_kept hkinds hkept, hs]
  simp

theorem closed_of_reads {pend : Text} (hcr : '\r' ∉ s) (hcontinued : st.continued = false)
    (hpending : st.pending = none)
    (h : (st.lineScan tokens).Reads 0 [] [] s [] ps tail pend) :
    pend = [] ∧ tail.getLast? ≠ some '\n' ∧ (Cursor.start.after tokens).At (spell ps) tail := by
  have hpend : pend = [] := h.remembers.closed hpending
  have hat := at_of_reads (by rw [List.append_nil]; exact hcr) h
  rw [hpend, List.append_nil, List.append_nil] at hat
  exact ⟨hpend, h.remembers.ended hcontinued hpending, hat⟩

private theorem continuationsRecoverable_of_render_eq (hcr : '\r' ∉ s)
    (hscan : scanLines .start 1 s.rawLines = .ok (tokens, st)) (hcontinued : st.continued = false)
    (hpending : st.pending = none) {rows : Nat} {lastLine : Text}
    (hrender : render (tokens ++ closingTokens tokens st rows lastLine) = s) :
    ContinuationsRecoverable s := by
  intro k line before mid hline hbefore hmid
  obtain ⟨ps, gap, pend, hreads, -⟩ := reads_of_scanLines hbefore
  rw [recoverable_iff_recovers hcr hline hreads hmid]
  have hgapLast : gap.getLast? = some '\n' := by
    have hjoined := hreads.remembers.joined hmid
    simp only [isJoined, Bool.or_eq_true, List.isSuffixOf_iff_suffix] at hjoined
    rcases hjoined with ⟨w, hw⟩ | ⟨w, hw⟩ <;> simp [← hw]
  -- The rest of the lines is read from where the continued line leaves off.
  have hall := hscan
  rw [← List.take_append_drop (k + 1) s.rawLines] at hall
  obtain ⟨mid', before', more, hbefore', hmore, rfl⟩ := scanLines_append hall
  cases hbefore.symm.trans hbefore'
  have hread : [] ++ spell ps ++ gap ++ pend = (s.rawLines.take (k + 1)).flatten := by
    have htext := hreads.text
    simpa using htext.symm
  have hstart : s.rawLines.drop (k + 1) ≠ [] → lastRow ([] ++ spell ps ++ gap ++ pend) = [] ∧
      1 + (s.rawLines.take (k + 1)).length = (place ([] ++ spell ps ++ gap ++ pend)).row := by
    intro hne
    have hk : k + 1 < s.rawLines.length := by
      by_contra hlength
      exact hne (List.drop_of_length_le (by omega))
    have hcomplete := (rows_rawLines s).complete (x := []) rfl hk
    simp only [List.nil_append, List.count_nil, Nat.zero_add] at hcomplete
    rw [hread, place_row, hcomplete.2, List.length_take]
    exact ⟨hcomplete.1, by omega⟩
  have hremembers : Remembers mid.continued mid.pending ([] ++ spell ps) gap pend
      ((s.rawLines.drop (k + 1)).flatten ++ []) := by
    rw [List.append_nil]
    exact hreads.remembers
  obtain ⟨qs, tail, pend', hreads', -⟩ :=
    scanLines_reads hmore hremembers hstart ((rows_rawLines s).drop (k + 1))
  have hwhole : (st.lineScan (before ++ more)).Reads 0 [] [] s [] (ps ++ qs) tail pend' := by
    refine LineScan.Reads.prepend (l := st.lineScan more) hreads.tokens ?_ hreads' ?_ List.nil_prefix
    · have hlaid := hreads.laid
      simpa [Scanner.lineScan] using hlaid
    · rw [← List.append_assoc, ← List.nil_append (spell ps), hread, List.nil_append,
        flatten_take_append_drop]
  obtain ⟨rfl, htail, hat⟩ := closed_of_reads hcr hcontinued hpending hwhole
  obtain ⟨hkept, rfl⟩ := kept_of_render_eq hcr hwhole hat htail hrender
  have htokens : before = ps.map Piece.token := hreads.tokens
  rw [kept_append, ← htokens] at hkept
  cases qs with
  | nil =>
    have hgap : gap = [] := List.prefix_nil.mp hreads'.first
    rw [hgap] at hgapLast
    cases hgapLast
  | cons q qs =>
    obtain ⟨r, hr⟩ : gap <+: q.gap := hreads'.first
    have hatGap := at_of_reads (by rw [flatten_take_append_drop]; exact hcr) hreads
    have hrest : gap ++ pend ++ (s.rawLines.drop (k + 1)).flatten ≠ [] := by
      intro hnil
      rw [List.append_assoc] at hnil
      rw [(List.append_eq_nil_iff.mp hnil).1] at hgapLast
      cases hgapLast
    have hrecovers : (Cursor.start.after before).Recovers (gap ++ r) := by
      cases hreads'.laid with
      | cons hfits _ =>
        have htext := hreads'.text
        rw [← List.append_assoc] at htext
        rw [htext, List.append_nil, List.append_nil, spell_cons] at hatGap
        have hgap := hatGap.gap_eq (by simpa using hfits.stands)
        rw [hkept.2.1] at hgap
        rw [hr]
        exact hgap.symm
    exact hrecovers.of_append hatGap hrest hgapLast

/-- A source that can be read comes out of its tokens as it is exactly if all its continued lines can
be recovered, and no blanks are left after its last token. -/
theorem render_eq_source_iff {tokens : List Token} (hcr : '\r' ∉ s)
    (h : tokenize s = .ok tokens) :
    render tokens = s ↔ ContinuationsRecoverable s ∧
      ∀ scanned st, scanLines .start 1 s.rawLines = .ok (scanned, st) → EndsInToken s scanned := by
  obtain ⟨scanned, st, hscan, -, hcontinued, hpending, rfl⟩ := tokenize_eq_ok h
  have hlines : s.rawLines.take s.rawLines.length = s.rawLines := List.take_length
  constructor
  · intro hrender
    refine ⟨continuationsRecoverable_of_render_eq hcr hscan hcontinued hpending hrender, ?_⟩
    intro scanned' st' hscan'
    cases hscan.symm.trans hscan'
    rw [← hlines] at hscan
    obtain ⟨ps, tail, pend, hreads, -⟩ := reads_of_scanLines hscan
    rw [hlines, Text.flatten_rawLines, List.drop_length] at hreads
    obtain ⟨rfl, htail, hat⟩ := closed_of_reads hcr hcontinued hpending hreads
    have hs : s = spell ps ++ tail := by simpa using hreads.text
    apply (endsInToken_iff hreads.tokens hs hat htail).mpr
    exact (kept_of_render_eq hcr hreads hat htail hrender).2
  · rintro ⟨hrecoverable, hend⟩
    have hends := hend scanned st hscan
    rw [← hlines] at hscan
    obtain ⟨ps, tail, pend, hreads, hkept, -⟩ := kept_scanLines hcr hrecoverable hscan
    rw [hlines, Text.flatten_rawLines, List.drop_length] at hreads
    obtain ⟨rfl, htail, hat⟩ := closed_of_reads hcr hcontinued hpending hreads
    have hs : s = spell ps ++ tail := by simpa using hreads.text
    have hnil : tail = [] := (endsInToken_iff hreads.tokens hs hat htail).mp hends
    subst hnil
    exact render_eq_of_kept hreads hat hkept

/-- A lone backslash on a line of its own is lost, and with it the line. -/
theorem render_drops_lone_backslash :
    ∃ tokens, tokenize "x = 1 + \\\n\\\n2\n".toList = .ok tokens ∧
      render tokens = "x = 1 + \\\n2\n".toList ∧
      ¬(ContinuationsRecoverable "x = 1 + \\\n\\\n2\n".toList ∧
        ∀ scanned st, scanLines .start 1 (Text.rawLines "x = 1 + \\\n\\\n2\n".toList) =
          .ok (scanned, st) → EndsInToken "x = 1 + \\\n\\\n2\n".toList scanned) := by
  have hrender : (tokenize "x = 1 + \\\n\\\n2\n".toList).toOption.map render =
      some "x = 1 + \\\n2\n".toList := by
    decide +kernel
  cases htokens : tokenize "x = 1 + \\\n\\\n2\n".toList with
  | error cause =>
    rw [htokens] at hrender
    cases hrender
  | ok tokens =>
    rw [htokens] at hrender
    have hout : render tokens = "x = 1 + \\\n2\n".toList := Option.some.inj hrender
    refine ⟨tokens, rfl, hout, ?_⟩
    rw [← render_eq_source_iff (by decide) htokens, hout]
    decide

end RoundTrip

end DocstringFormat.Source
