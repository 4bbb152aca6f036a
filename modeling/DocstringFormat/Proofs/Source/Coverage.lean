import DocstringFormat.Proofs.Source.Splice

/-!
The tokens of a source cover it.

Gaps and texts of tokens concatenate to the source, and a token stands where its places say, on
the physical lines that it carries.  Only the tokens that close a source stand on no line.  The
main result is `tokenize_covers`.
-/

set_option autoImplicit false

namespace DocstringFormat.Source

def rowsBetween (s : Text) (first last : Nat) : Text :=
  ((s.rawLines.take last).drop (first - 1)).flatten

/-- A token stands in a source right after the text `before`, its places are byte offsets, and its
lines are the rows that it is on. -/
structure Token.Covers (t : Token) (s before : Text) : Prop where
  row : 0 < t.start.row
  start : offset s t.start = before.size
  stop : offset s t.stop = (before ++ t.text).size
  line : t.line = rowsBetween s t.start.row t.stop.row

/-- The tokens of a source with the gaps before them, and the gap after the last one. -/
structure Covering (s : Text) (tokens : List Token) (ps : List Piece) (tail : Text) : Prop where
  tokens : tokens = ps.map Piece.token
  text : s = spell ps ++ tail
  gaps : ∀ p ∈ ps, isGap p.gap = true
  end_gap : isGap tail = true
  places : ∀ earlier p later, ps = earlier ++ p :: later → p.token.line ≠ [] →
    p.token.Covers s (spell earlier ++ p.gap)

/-- The tokens that close a source: the end of an open last line, the ends of all blocks, and the
end marker.  None of them has a text or stands on a line. -/
structure ClosesSource (closing : List Token) : Prop where
  kinds : ∃ newline dedents marker, closing = newline ++ dedents ++ [marker] ∧
    newline.length ≤ 1 ∧ (∀ t ∈ newline, t.kind = .newline) ∧ (∀ t ∈ dedents, t.kind = .dedent) ∧
    marker.kind = .endMarker
  empty : ∀ t ∈ closing, t.text = [] ∧ t.line = []

section Rows

private theorem flatten_take_one (s : Text) : (s.rawLines.take 1).flatten = firstRow s := by
  rcases Text.newline_split s with hs | ⟨b, t, rfl, hb⟩
  · have hrow : firstRow s = s := by
      have h := firstRow_append_of_not_mem hs []
      simpa [firstRow] using h
    rw [hrow]
    by_cases hne : s = []
    · rw [hne]
      rfl
    · rw [Text.rawLines_of_not_mem hne hs]
      simp
  · rw [Text.rawLines_append_newline hb, firstRow_append_of_not_mem hb]
    simp [firstRow]

private theorem flatten_take_count_succ (x rest : Text) :
    ((x ++ rest).rawLines.take (x.count '\n' + 1)).flatten = x ++ firstRow rest := by
  induction x using Text.line_induction with
  | last b hb =>
    rw [List.count_eq_zero_of_not_mem hb, Nat.zero_add, flatten_take_one,
      firstRow_append_of_not_mem hb]
  | line b x hb ih =>
    have hcount : (b ++ '\n' :: x).count '\n' = x.count '\n' + 1 := by
      simp [List.count_eq_zero_of_not_mem hb]
    rw [hcount, List.append_assoc, List.cons_append, Text.rawLines_append_newline hb,
      List.take_succ_cons, List.flatten_cons, ih]
    simp

variable {t : Token} {x rest : Text}

private theorem Token.Stands.flatten_take_stop (h : t.Stands x rest) :
    ((x ++ t.text ++ rest).rawLines.take t.stop.row).flatten =
      x ++ t.text ++ restOfRow t.text rest := by
  rw [h.stop, stopPlace, restOfRow]
  split
  · rename_i hlast
    obtain ⟨u, hu⟩ := List.getLast?_eq_some_iff.mp hlast
    have hrows := flatten_take_count_succ (x ++ u) ('\n' :: rest)
    rw [hu, List.dropLast_concat, place_row]
    simpa [firstRow] using hrows
  · exact flatten_take_count_succ (x ++ t.text) rest

theorem Token.Stands.row_le (h : t.Stands x rest) : t.start.row ≤ t.stop.row := by
  rw [h.start, h.stop, stopPlace]
  split <;> simp only [place_row, List.count_append] <;> omega

theorem Token.Stands.line_eq (h : t.Stands x rest) :
    t.line = rowsBetween (x ++ t.text ++ rest) t.start.row t.stop.row := by
  -- The rows before the token's first row are `x` without the start of that row.
  have hbefore := flatten_take_count x (t.text ++ rest)
  have hstart : t.start.row - 1 = x.count '\n' := by
    rw [h.start]
    rfl
  have hupto := h.flatten_take_stop
  have hle := h.row_le
  rw [← List.append_assoc, ← hstart] at hbefore
  rw [← List.take_append_drop (t.start.row - 1)
      ((x ++ t.text ++ rest).rawLines.take t.stop.row),
    List.flatten_append, List.take_take, Nat.min_eq_left (by omega)] at hupto
  have hsplit : x ++ t.text ++ restOfRow t.text rest =
      ((x ++ t.text ++ rest).rawLines.take (t.start.row - 1)).flatten ++ t.line := by
    rw [h.line]
    conv_lhs => rw [← hbefore]
    simp only [List.append_assoc]
  rw [hsplit] at hupto
  exact (List.append_cancel_left hupto).symm

theorem Token.Stands.offset_stop (h : t.Stands x rest) :
    offset (x ++ t.text ++ rest) t.stop = (x ++ t.text).size := by
  rw [h.stop, stopPlace]
  split
  · rename_i hlast
    obtain ⟨u, hu⟩ := List.getLast?_eq_some_iff.mp hlast
    have hplace := offset_place (x ++ u) ('\n' :: rest)
    have hsource : x ++ t.text ++ rest = x ++ u ++ '\n' :: rest := by rw [hu]; simp
    rw [hsource, hu, List.dropLast_concat, offset, ← Nat.add_assoc]
    rw [offset] at hplace
    rw [hplace, ← List.append_assoc, Text.size_append (x ++ u)]
    rfl
  · exact offset_place (x ++ t.text) rest

theorem Token.Stands.line_sublist (h : t.Stands x rest) :
    List.Sublist t.line (x ++ t.text ++ rest) := by
  have hbefore : List.Sublist (lastRow x ++ t.text) (x ++ t.text) :=
    (lastRow_isSuffix x).sublist.append_right t.text
  have hafter : List.Sublist (restOfRow t.text rest) rest := by
    rw [restOfRow]
    split
    · exact List.nil_sublist rest
    · exact firstRow_sublist rest
  rw [h.line]
  exact hbefore.append hafter

theorem Token.Stands.covers (h : t.Stands x rest) : t.Covers (x ++ t.text ++ rest) x := by
  refine ⟨?_, ?_, h.offset_stop, h.line_eq⟩
  · rw [h.start, place_row]
    omega
  · rw [h.start, List.append_assoc]
    exact offset_place x (t.text ++ rest)

end Rows

private theorem Piece.Fits.line_ne_nil {p : Piece} {depth : Nat} {x rest : Text}
    (h : p.Fits depth x rest) :
    p.token.line ≠ [] := by
  have hlawful := h.lawful
  rw [h.stands.line]
  -- A token without a text has something else on its row, before it or after it.
  have hbreak : IsBreak (lastRow (x ++ p.gap)) p.token.text rest →
      lastRow (x ++ p.gap) ++ p.token.text ++ restOfRow p.token.text rest ≠ [] := by
    rintro (htext | ⟨hrow, -, -⟩ | hhead) hnil
    · simp [htext] at hnil
    · simp [hrow] at hnil
    · simp only [List.append_eq_nil_iff] at hnil
      rw [hnil.1.2] at hhead
      cases hhead
  have htext : p.token.text ≠ [] →
      lastRow (x ++ p.gap) ++ p.token.text ++ restOfRow p.token.text rest ≠ [] := by
    intro hne hnil
    simp [hne] at hnil
  unfold Token.Lawful at hlawful
  split at hlawful
  · exact hbreak hlawful.2
  · exact hbreak hlawful.1
  · exact htext hlawful.1
  · obtain ⟨hnone, hcode⟩ := hlawful
    intro hnil
    rw [hnone] at hnil
    have hrest : rest = [] := firstRow_eq_nil (List.append_eq_nil_iff.mp hnil).2
    rw [hrest] at hcode
    cases hcode
  · exact htext hlawful.1

section Scanned

variable {s : Text} {ls rest : List Text} {tokens : List Token} {st : Scanner}

theorem exists_laid (hlines : s.rawLines = ls ++ rest)
    (h : scanLines .start 1 ls = .ok (tokens, st)) :
    ∃ ps y, tokens = ps.map Piece.token ∧ s = spell ps ++ y ∧ Laid 0 [] ps y st.depth := by
  have htake : s.rawLines.take ls.length = ls := by
    rw [hlines, List.take_left]
  rw [← htake] at h
  obtain ⟨ps, tail, pend, hreads, -⟩ := reads_of_scanLines h
  refine ⟨ps, _, hreads.tokens, ?_, hreads.laid⟩
  have htext := hreads.text
  rw [List.nil_append] at htext
  rw [← List.append_assoc, ← List.append_assoc, ← htext, ← List.flatten_append,
    List.take_append_drop, Text.flatten_rawLines]

theorem exists_stands (hlines : s.rawLines = ls ++ rest)
    (h : scanLines .start 1 ls = .ok (tokens, st)) {t : Token} (ht : t ∈ tokens) :
    ∃ x y, t.Stands x y ∧ s = x ++ t.text ++ y := by
  obtain ⟨ps, y, htokens, hs, hlaid⟩ := exists_laid hlines h
  rw [htokens] at ht
  obtain ⟨p, hp, rfl⟩ := List.mem_map.mp ht
  obtain ⟨qs, rs, rfl⟩ := List.append_of_mem hp
  refine ⟨_, _, hlaid.fits.stands, ?_⟩
  rw [hs]
  simp

end Scanned

theorem closesSource_closingTokens (tokens : List Token) (st : Scanner) (rows : Nat)
    (lastLine : Text) : ClosesSource (closingTokens tokens st rows lastLine) := by
  refine ⟨⟨_, _, _, rfl, ?_, ?_, ?_, rfl⟩, ?_⟩
  · split <;> simp
  · intro t ht
    split at ht
    · rw [List.mem_singleton.mp ht]
    · cases ht
  · intro t ht
    obtain ⟨_, -, rfl⟩ := List.mem_map.mp ht
    rfl
  · intro t ht
    simp only [closingTokens, List.mem_append, List.mem_map, List.mem_singleton] at ht
    rcases ht with (ht | ⟨_, -, rfl⟩) | rfl
    · split at ht
      · rw [List.mem_singleton.mp ht]
        exact ⟨rfl, rfl⟩
      · cases ht
    · exact ⟨rfl, rfl⟩
    · exact ⟨rfl, rfl⟩

private theorem spell_map_empty {ts : List Token} (h : ∀ t ∈ ts, t.text = []) :
    spell (ts.map fun t => ⟨[], t⟩) = [] := by
  induction ts with
  | nil => rfl
  | cons t ts ih =>
    rw [List.map_cons, spell_cons, h t (by simp), ih fun u hu => h u (List.mem_cons_of_mem t hu)]
    rfl

/-- The tokens of a source and the gaps between them make up the source, every token that stands on
a line covers what its places and its line say, and the tokens on no line close the source. -/
theorem tokenize_covers {s : Text} {tokens : List Token} (h : tokenize s = .ok tokens) :
    ∃ ps tail, Covering s tokens ps tail ∧
      ∃ scanned closing, tokens = scanned ++ closing ∧ (∀ t ∈ scanned, t.line ≠ []) ∧
        ClosesSource closing := by
  obtain ⟨scanned, st, hscan, -, -, hpending, htokens⟩ := tokenize_eq_ok h
  have hlines : s.rawLines.take s.rawLines.length = s.rawLines := List.take_length
  rw [← hlines] at hscan
  obtain ⟨ps, tail, pend, hreads, -⟩ := reads_of_scanLines hscan
  rw [hlines, Text.flatten_rawLines, List.drop_length, List.flatten_nil] at hreads
  obtain rfl : pend = [] := hreads.remembers.closed hpending
  have hscanned : scanned = ps.map Piece.token := hreads.tokens
  have htext : s = spell ps ++ tail := by simpa using hreads.text
  have hfits : ∀ before p after, ps = before ++ p :: after →
      p.Fits ((before.map Piece.token).foldl Token.depthAfter 0) (spell before)
        (spell after ++ tail) := by
    rintro before p after rfl
    have hp := hreads.laid.fits
    simpa using hp
  have hclosing := closesSource_closingTokens scanned st s.rawLines.length
    (s.rawLines.getLast?.getD [])
  generalize closingTokens scanned st s.rawLines.length (s.rawLines.getLast?.getD []) = closing
    at htokens hclosing
  refine ⟨ps ++ closing.map (fun t => ⟨[], t⟩), tail, ⟨?_, ?_, ?_, hreads.remembers.gap, ?_⟩,
    scanned, closing, htokens, ?_, hclosing⟩
  · simp [htokens, hscanned, Function.comp_def]
  · rw [spell_append, spell_map_empty fun t ht => (hclosing.empty t ht).1, List.append_nil]
    exact htext
  · intro p hp
    rcases List.mem_append.mp hp with hp | hp
    · obtain ⟨before, after, hsplit⟩ := List.append_of_mem hp
      exact (hfits before p after hsplit).gap
    · obtain ⟨t, -, rfl⟩ := List.mem_map.mp hp
      rfl
  · intro earlier p later hsplit hline
    -- The tokens that close the source stand on no line, so this is a scanned one.
    have hlate : p ∉ closing.map fun t => (⟨[], t⟩ : Piece) := by
      intro hmem
      obtain ⟨t, ht, rfl⟩ := List.mem_map.mp hmem
      exact hline (hclosing.empty t ht).2
    rcases List.append_eq_append_iff.mp hsplit with ⟨mid, -, hmid⟩ | ⟨mid, hmid, hmore⟩
    · exact absurd (hmid ▸ List.mem_append_right mid List.mem_cons_self) hlate
    · cases mid with
      | nil =>
        rw [List.nil_append] at hmore
        exact absurd (hmore ▸ List.mem_cons_self) hlate
      | cons q mid =>
        obtain ⟨rfl, -⟩ := List.cons.inj hmore
        have hcovers := (hfits earlier p mid hmid).stands.covers
        have hsource : spell earlier ++ p.gap ++ p.token.text ++ (spell mid ++ tail) = s := by
          rw [htext, hmid]
          simp
        rwa [hsource] at hcovers
  · intro t ht
    rw [hscanned] at ht
    obtain ⟨p, hp, rfl⟩ := List.mem_map.mp ht
    obtain ⟨before, after, hsplit⟩ := List.append_of_mem hp
    exact (hfits before p after hsplit).line_ne_nil

/-- A string over two rows, lines that are joined, carriage returns and an open last line. -/
theorem tokenize_covers_of_joined_lines :
    let s : Text := "if x:\r\n\ty = 'é\\\nb'  \\\r\n + 1 ".toList
    ∃ tokens, tokenize s = .ok tokens ∧ (∃ ps tail, Covering s tokens ps tail) ∧
      tokens[7]?.map (fun t => (t.text, offset s t.start, offset s t.stop)) =
        some ("'é\\\nb'".toList, 12, 19) := by
  intro s
  have hstring : (tokenize s).toOption.bind (fun tokens =>
      tokens[7]?.map fun t => (t.text, offset s t.start, offset s t.stop)) =
        some ("'é\\\nb'".toList, 12, 19) := by
    decide +kernel
  cases htokens : tokenize s with
  | error cause =>
    rw [htokens] at hstring
    cases hstring
  | ok tokens =>
    rw [htokens] at hstring
    obtain ⟨ps, tail, hcovering, -⟩ := tokenize_covers htokens
    exact ⟨tokens, rfl, ⟨ps, tail, hcovering⟩, hstring⟩

end DocstringFormat.Source
