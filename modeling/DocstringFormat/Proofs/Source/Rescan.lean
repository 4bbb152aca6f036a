import DocstringFormat.Proofs.Source.Revision

/-!
Reading revised sources.

If a revision drops only blank lines and replaces only docstrings, by complete literals, the revised
text reads as the revised tokens (`tokenize_revised`): a dropped line leaves the scanner as it was
(`Rescan.drop_row`), a docstring leaves it as any other docstring in its place does
(`Rescan.docstring_rows`), and all other lines are read at other rows (`Rescan.keep_row`).
-/

set_option autoImplicit false

namespace DocstringFormat.Source

open Docstring (Opening)

section Steps

/-- The rest of a source after the text `x`, with its pieces, and the lines that the revised rest
has, with what the scanner makes of them; `left` is what was read but is no token yet. -/
structure Rescan (ρ : Nat → Revision) (i : Nat) (x : Text) (depth : Nat) (toks : List Token)
    (last : Scanner) (left text : Text) (st' : Scanner) (row' : Nat) (ps : List Piece)
    (ls : List Text) (toks' : List Token) (last' : Scanner) : Prop where
  tokens : toks = ps.map Piece.token
  text : left ++ text = spell ps
  laid : Laid depth x ps [] last.depth
  gaps : ∀ p ∈ ps, '\n' ∉ p.gap
  lines : ∀ l ∈ ls, IsLine l
  revised : revisedText ρ i ps = left ++ ls.flatten
  scan : scanLines st' row' ls = .ok (toks', last')
  never : NeverContinued st' row' ls
  final : last.Moved 0 0 last'
  related : Revised ρ i toks toks'

variable {ρ : Nat → Revision} {i row row' depth : Nat} {x left left₁ group rest : Text}
  {st mid last st' mid' last' : Scanner} {before before' more toks' : List Token} {qs ps : List Piece}
  {g ls : List Text}

theorem Rescan.prepend {d : Nat}
    (h : Rescan ρ (i + before.length) (x ++ spell qs) d more last left₁ rest mid'
      (row' + g.length) ps ls toks' last')
    (hbefore : before = qs.map Piece.token) (htext : left ++ group = spell qs ++ left₁)
    (hlaid : Laid depth x qs (left₁ ++ rest) d) (hgaps : ∀ q ∈ qs, '\n' ∉ q.gap)
    (hlines : ∀ l ∈ g, IsLine l) (hrevised : revisedText ρ i qs ++ left₁ = left ++ g.flatten)
    (hscan : scanLines st' row' g = .ok (before', mid')) (hnever : NeverContinued st' row' g)
    (hrelated : Revised ρ i before before') :
    Rescan ρ i x depth (before ++ more) last left (group ++ rest) st' row' (qs ++ ps) (g ++ ls)
      (before' ++ toks') last' := by
  have hlength : before.length = qs.length := by rw [hbefore, List.length_map]
  refine ⟨?_, ?_, ?_, ?_, ?_, ?_, ?_, ?_, h.final, hrelated.append h.related⟩
  · rw [hbefore, h.tokens, List.map_append]
  · rw [spell_append, ← h.text, ← List.append_assoc, ← List.append_assoc, htext]
  · refine Laid.append ?_ h.laid
    rwa [← h.text, List.append_nil]
  · intro p hp
    rcases List.mem_append.mp hp with hp | hp
    · exact hgaps p hp
    · exact h.gaps p hp
  · intro l hl
    rcases List.mem_append.mp hl with hl | hl
    · exact hlines l hl
    · exact h.lines l hl
  · rw [revisedText_append, ← hlength, h.revised, ← List.append_assoc, hrevised, List.flatten_append,
      List.append_assoc]
  · exact scanLines_of_append hscan h.scan
  · exact hnever.of_append hscan h.never

private theorem Rescan.keep_row {tail pend tail₁ pend₁ line : Text}
    (hline : scanLine st row line = .ok (before, mid))
    (hreads : (mid.lineScan before).Reads st.depth x tail (pend ++ line) rest qs tail₁ pend₁)
    (hgaps : ∀ q ∈ qs, '\n' ∉ q.gap) (hkeeps : Keeps ρ i before.length) (hcomplete : IsLine line)
    (hst : st.Moved row row' st') (hcontinued : st.continued = false)
    (hmid : mid.continued = false)
    (hrest : ∀ next, mid.Moved (row + 1) (row' + 1) next → ∃ ps ls toks' last',
      Rescan ρ (i + before.length) (x ++ spell qs) mid.depth more last (tail₁ ++ pend₁) rest next
        (row' + 1) ps ls toks' last') :
    ∃ ps ls toks' last', Rescan ρ i x st.depth (before ++ more) last (tail ++ pend) (line ++ rest)
      st' row' ps ls toks' last' := by
  obtain ⟨before', next, hline', hmoved, hnext⟩ := scanLine_moved hline hst
  obtain ⟨ps, ls, toks', last', h⟩ := hrest next hnext
  have hbefore : before = qs.map Piece.token := hreads.tokens
  have hlength : before.length = qs.length := by rw [hbefore, List.length_map]
  have hcontinued' := hst.continued.trans hcontinued
  have htext : tail ++ pend ++ line = spell qs ++ (tail₁ ++ pend₁) := by
    have htext := hreads.text
    simpa using htext
  have hnext' := hnext.continued.trans hmid
  refine ⟨qs ++ ps, [line] ++ ls, before' ++ toks', last',
    h.prepend (g := [line]) hbefore htext hreads.laid hgaps ?_ ?_ ?_ ?_ ?_⟩
  · simpa using hcomplete
  · have hkept := hkeeps
    rw [hlength] at hkept
    rw [hkept.revisedText, ← htext]
    simp
  · exact scanLines_singleton hline'
  · exact NeverContinued.of_cons hcontinued' hline' (neverContinued_nil hnext' _)
  · exact hkeeps.revised (hmoved.imp fun _ _ => Token.Moved.kept)

private theorem next_row_of_reads {pre : List Token} {tail pend tail₁ pend₁ line : Text}
    (hreads : (mid.lineScan before).Reads st.depth x tail (pend ++ line) rest qs tail₁ pend₁)
    (hcomplete : IsLine line) (hr : row = (place (x ++ tail ++ pend)).row)
    (hdepth : depthOf pre = st.depth) :
    lastRow (x ++ spell qs ++ tail₁ ++ pend₁) = [] ∧
      row + 1 = (place (x ++ spell qs ++ tail₁ ++ pend₁)).row ∧
      depthOf (pre ++ before) = mid.depth := by
  have hread : x ++ spell qs ++ tail₁ ++ pend₁ = x ++ tail ++ pend ++ line := by
    have h := congrArg (x ++ ·) hreads.text
    simpa only [List.append_assoc] using h.symm
  obtain ⟨v, rfl, hv⟩ := hcomplete
  refine ⟨?_, ?_, ?_⟩
  · rw [hread, ← List.append_assoc, lastRow_append_newline]
    rfl
  · rw [hread, hr]
    simp only [place_row, List.count_append, List.count_eq_zero_of_not_mem hv, List.count_singleton_self]
  · have hlaid := hreads.laid.depth_eq
    rw [← hreads.tokens] at hlaid
    rw [depthOf_append_eq, hdepth]
    exact hlaid.symm

private theorem Rescan.drop_row {line : Text} {t : Token}
    (hreads : (st.lineScan [t]).Reads st.depth x [] line rest qs [] [])
    (hgaps : ∀ q ∈ qs, '\n' ∉ q.gap) (hdrop : ρ i = .drop) (hst' : st'.continued = false)
    (h : Rescan ρ (i + 1) (x ++ spell qs) st.depth more last [] rest st' row' ps ls toks' last') :
    Rescan ρ i x st.depth (t :: more) last [] (line ++ rest) st' row' (qs ++ ps) ls toks' last' := by
  have hbefore : [t] = qs.map Piece.token := hreads.tokens
  obtain ⟨q, rfl, -⟩ := List.map_eq_singleton_iff.mp hbefore.symm
  have hdropped : Revised ρ i [t] [] := .drop hdrop .nil
  refine h.prepend (g := []) hbefore ?_ hreads.laid hgaps (by simp) ?_ rfl
    (neverContinued_nil hst' _) hdropped
  · have htext := hreads.text
    simpa using htext
  · rw [revisedText, hdrop]
    rfl

end Steps

section Docstrings

variable {ρ : Nat → Revision} {row row' : Nat} {x lead body u new : Text} {o : Opening}
  {st st' last : Scanner} {indents : List Nat} {tokens pre post moves more : List Token}

private theorem eq_of_place_eq {a b c d : Text} (h : a ++ c = b ++ d) (hplace : place a = place b) :
    a = b := by
  rcases List.append_eq_append_iff.mp h with ⟨v, rfl, -⟩ | ⟨v, rfl, -⟩
  · rw [eq_nil_of_place_eq hplace.symm, List.append_nil]
  · rw [eq_nil_of_place_eq hplace, List.append_nil]

private theorem IsTripleQuoted.includes_firstRow (h : IsTripleQuoted new) (hlead : '\n' ∉ lead)
    (r : Text) :
    Text.includes Docstring.tripleDouble (firstRow (lead ++ (new ++ r))) = true := by
  obtain ⟨o, ho, body, hquote, rfl, -⟩ := h
  have hopening := newline_not_mem_opening ho
  have hrow : firstRow (lead ++ (o.text ++ body ++ r)) = lead ++ o.text ++ firstRow (body ++ r) := by
    rw [← firstRow_append_of_not_mem (by simp [hlead, hopening])]
    simp
  rw [Docstring.includes_iff, hrow, Opening.text, hquote]
  exact ⟨lead ++ o.mark, firstRow (body ++ r), by simp⟩

private theorem IsTripleQuoted.includes_lastRow (h : IsTripleQuoted new) (lead r : Text) :
    Text.includes Docstring.tripleDouble (lastRow (lead ++ new) ++ r) = true := by
  obtain ⟨o, ho, body, hquote, rfl, hclose⟩ := h
  obtain ⟨inner, hbody⟩ := exists_append_quote hclose
  have hrow : lastRow (lead ++ (o.text ++ body)) = lastRow (lead ++ (o.text ++ inner)) ++ o.quote := by
    rw [← lastRow_append_of_not_mem _ (quote_of_opening ho).2, hbody]
    simp
  rw [Docstring.includes_iff, hrow, hquote]
  exact ⟨lastRow (lead ++ (o.text ++ inner)), r, rfl⟩

private theorem exists_docstring_pieces {qs : List Piece} {text r : Text} {t : Token}
    {ts : List Token}
    {depth mid : Nat} {rest : Text} (hlaid : Laid depth x qs rest mid)
    (htokens : moves ++ t :: ts = qs.map Piece.token) (hspell : spell qs = lead ++ (text ++ r))
    (htext : t.text = text) (hstart : t.start = place (x ++ lead)) :
    ∃ qm p qr, qs = qm ++ p :: qr ∧ moves = qm.map Piece.token ∧ p.token = t ∧
      ts = qr.map Piece.token ∧ lead = spell qm ++ p.gap ∧ r = spell qr := by
  obtain ⟨qm, qs', rfl, hmoves, hqs'⟩ := List.map_eq_append_iff.mp htokens.symm
  obtain ⟨p, qr, rfl, hp, hts⟩ := List.map_eq_cons_iff.mp hqs'
  have hstands := hlaid.fits.stands.start
  have hwhole : x ++ spell qm ++ p.gap ++ (p.token.text ++ spell qr) = x ++ lead ++ (text ++ r) := by
    have h := congrArg (x ++ ·) hspell
    simpa using h
  have hlead : x ++ spell qm ++ p.gap = x ++ lead := by
    apply eq_of_place_eq hwhole
    rw [← hstands, hp, hstart]
  rw [hlead, hp, htext] at hwhole
  rw [List.append_assoc] at hlead
  refine ⟨qm, p, qr, rfl, hmoves.symm, hp, hts.symm, (List.append_cancel_left hlead).symm, ?_⟩
  exact (List.append_cancel_left (List.append_cancel_left hwhole)).symm

private theorem scan_docstring_rows {r text : Text} {ls : List Text} {toks : List Token}
    (hr : r = u ++ ['\n']) (htext : text = o.text ++ body)
    (hdepth : st.depth = 0) (hcontinued : st.continued = false)
    (hpending : st.pending = none) (hlead : ∀ c ∈ lead, isSpacing c = true)
    (ho : o ∈ Opening.all) (hclose : closingLength? o.quote body = some body.length)
    (hu : '\n' ∉ u)
    (hmoves : adjustIndents st.indents row lead (firstRow (lead ++ (text ++ r))) =
      .ok (indents, moves))
    (hscan : scanLines st row (Text.rawLines (lead ++ (text ++ r)) ++ ls) = .ok (toks, last))
    (hnever : NeverContinued st row (Text.rawLines (lead ++ (text ++ r)) ++ ls))
    (hlast : last.pending = none)
    (hends : ∀ t after, toks = moves ++ t :: after → endsStatement (after ++ post) = true) :
    let l := scanFrom (row + (lead ++ text).count '\n') (lastRow (lead ++ text) ++ r)
      (lastRow (lead ++ text)).size 0 r
    let t : Token := ⟨.string, text, ⟨row, lead.size⟩,
      ⟨row + (lead ++ text).count '\n', (lastRow (lead ++ text)).size⟩, lead ++ (text ++ r)⟩
    let mid : Scanner := ⟨indents, 0, false, none⟩
    ∃ more, toks = (moves ++ t :: l.tokens) ++ more ∧
      scanLines st row (Text.rawLines (lead ++ (text ++ r))) = .ok (moves ++ t :: l.tokens, mid) ∧
      scanLines mid (row + (Text.rawLines (lead ++ (text ++ r))).length) ls = .ok (more, last) ∧
      (∀ t ∈ l.tokens, t.kind = .comment ∨ t.kind = .newline) ∧
      l.depth = 0 ∧ l.continued = false ∧ l.pending = none := by
  intro l t mid
  subst hr htext
  have hrows := (scanLines_docstring hdepth hcontinued hpending hlead ho hclose hu hmoves).1
  obtain ⟨next, before, more, hbefore, hmore, rfl⟩ := scanLines_append hscan
  have hnext := hnever.append_right hbefore
  rw [hrows] at hbefore
  obtain ⟨rfl, rfl⟩ := Prod.mk.inj (Except.ok.inj hbefore)
  have hjoined : l.continued = false := hnext 0 [] _ rfl
  have hstatement : endsStatement (l.tokens ++ (more ++ post)) = true := by
    rw [← List.append_assoc]
    apply hends t (l.tokens ++ more)
    change moves ++ t :: l.tokens ++ more = moves ++ t :: (l.tokens ++ more)
    simp
  have hlater : l.pending ≠ none →
      ∃ t ts, more ++ post = t :: ts ∧ (t.kind = .string ∨ t.kind = .errorToken) := by
    intro hopen
    obtain ⟨p, hp⟩ := Option.ne_none_iff_exists'.mp hopen
    obtain ⟨t', ts, rfl, -, hkind⟩ := exists_head_of_pending hp hmore hlast
    exact ⟨t', ts ++ post, rfl, hkind⟩
  obtain ⟨hkinds, hzero, hnone⟩ := scanFrom_after_string (by simp) hstatement hjoined hlater
  have hmid : (⟨indents, l.depth, l.continued, l.pending⟩ : Scanner) = mid := by
    rw [hzero, hjoined, hnone]
  refine ⟨more, rfl, ?_, ?_, hkinds, hzero, hjoined, hnone⟩
  · rw [hrows]
    exact congrArg (fun st => Except.ok (moves ++ t :: l.tokens, st)) hmid
  · rw [← hmid]
    exact hmore

theorem Token.Alike.kept {row row' : Nat} {line line' : Text} {t u : Token}
    (h : Token.Alike row row' line line' t u) (hkind : t.kind ∈ [TokenKind.indent, .comment, .newline])
    (hline : Text.includes Docstring.tripleDouble line' = true) : t.Kept u :=
  ⟨h.kind, h.text, Or.inr ⟨hkind, by rw [h.right.line]; exact hline⟩⟩

private theorem scan_replaced_rows {i : Nat} {r line lastLine : Text} {column lastRow₀ : Nat}
    {t : Token}
    {l : LineScan} (hr : r = u ++ ['\n']) (hu : '\n' ∉ u) (hst : st.Moved row row' st')
    (hdepth : st.depth = 0) (hcontinued : st.continued = false) (hpending : st.pending = none)
    (hlead : ∀ c ∈ lead, isSpacing c = true) (hnew : IsTripleQuoted new)
    (hmoves : adjustIndents st.indents row lead line = .ok (indents, moves))
    (hl : l = scanFrom lastRow₀ lastLine column 0 r) (hjoined : l.continued = false)
    (hzero : l.depth = 0) (hnone : l.pending = none)
    (hindent : ∀ t ∈ moves, t.kind = .indent)
    (hkinds : ∀ t ∈ l.tokens, t.kind = .comment ∨ t.kind = .newline)
    (hkeepsMoves : Keeps ρ i moves.length) (hreplace : ρ (i + moves.length) = .replace new)
    (hkeepsRest : Keeps ρ (i + moves.length + 1) l.tokens.length)
    (hkind : t.kind = .string) (hline : t.line = lead ++ (t.text ++ r)) :
    ∃ before', scanLines st' row' (Text.rawLines (lead ++ (new ++ r))) =
        .ok (before', ⟨indents, 0, false, none⟩) ∧
      NeverContinued st' row' (Text.rawLines (lead ++ (new ++ r))) ∧
      Revised ρ i (moves ++ t :: l.tokens) before' := by
  have hleadMem : '\n' ∉ lead := fun h => isSpacing_ne_newline (hlead _ h) rfl
  have hfirst := hnew.includes_firstRow hleadMem r
  have hlastRow := hnew.includes_lastRow lead r
  obtain ⟨o, ho, body, hquote, rfl, hclose⟩ := hnew
  subst hr
  obtain ⟨moves', hmoves', halike⟩ := adjustIndents_alike hmoves row'
    (firstRow (lead ++ ((o.text ++ body) ++ (u ++ ['\n']))))
  rw [← hst.indents] at hmoves'
  obtain ⟨hrows, hnever⟩ := scanLines_docstring (hst.depth.trans hdepth)
    (hst.continued.trans hcontinued) (hst.pending_eq_none_iff.mpr hpending) hlead ho hclose hu hmoves'
  have hrest := scanFrom_alike lastRow₀ (row' + (lead ++ (o.text ++ body)).count '\n') lastLine
    (lastRow (lead ++ (o.text ++ body)) ++ (u ++ ['\n'])) column
    (lastRow (lead ++ (o.text ++ body))).size 0 (u ++ ['\n'])
  rw [← hl] at hrest
  rw [stringScan] at hrows hnever
  dsimp only at hrows hnever
  generalize scanFrom (row' + (lead ++ (o.text ++ body)).count '\n')
    (lastRow (lead ++ (o.text ++ body)) ++ (u ++ ['\n'])) (lastRow (lead ++ (o.text ++ body))).size 0
    (u ++ ['\n']) = l' at hrest hrows hnever
  have hclosed : l'.depth = 0 ∧ l'.continued = false ∧ l'.pending = none := by
    refine ⟨hrest.depth.trans hzero, hrest.continued.trans hjoined, ?_⟩
    have hpending' := hrest.pending
    rw [hnone] at hpending'
    generalize l'.pending = pending at hpending' ⊢
    cases hpending'
    rfl
  let t' : Token := ⟨.string, o.text ++ body, ⟨row', lead.size⟩,
    ⟨row' + (lead ++ (o.text ++ body)).count '\n', (lastRow (lead ++ (o.text ++ body))).size⟩,
    lead ++ ((o.text ++ body) ++ (u ++ ['\n']))⟩
  refine ⟨moves' ++ t' :: l'.tokens, ?_, hnever hclosed.2.1, (hkeepsMoves.revised ?_).append
    (.replace hreplace ⟨⟨hkind, rfl⟩, rfl, lead, u ++ ['\n'], hlead, hline, rfl⟩
      (hkeepsRest.revised ?_))⟩
  · rw [hrows]
    simp only [Scanner.after, LineScan.push, hclosed]
    rfl
  · rw [List.forall₂_iff_zip] at halike ⊢
    refine ⟨halike.1, fun {a b} hzip => (halike.2 hzip).kept ?_ hfirst⟩
    rw [hindent a (List.of_mem_zip hzip).1]
    simp
  · have htokens := List.forall₂_iff_zip.mp hrest.tokens
    refine List.forall₂_iff_zip.mpr ⟨htokens.1, fun {a b} hzip => (htokens.2 hzip).kept ?_ hlastRow⟩
    rcases hkinds a (List.of_mem_zip hzip).1 with hcomment | hnewline
    · simp [hcomment]
    · simp [hnewline]

private theorem IsDocstringAt.indent_of_moves {line : Text}
    (h : IsDocstringAt tokens (pre ++ moves).length)
    (hmoves : adjustIndents st.indents row lead line = .ok (indents, moves))
    (htokens : tokens = pre ++ moves ++ post) : ∀ m ∈ moves, m.kind = .indent := by
  rcases kind_of_mem_moves hmoves with hone | hdedent
  · rw [hone]
    simp [tokenAt]
  · intro m hm
    exfalso
    have hne : moves ≠ [] := List.ne_nil_of_mem hm
    have hopens := (h.opens htokens).2
    rw [opensRow_append pre hne] at hopens
    have hkind := hopens (moves.getLast hne) (by rw [List.getLast?_eq_some_getLast hne]; rfl)
    rw [hdedent _ (List.getLast_mem hne)] at hkind
    simp at hkind

private theorem Revises.keeps_line_end {ts : List Token} (h : Revises ρ tokens)
    (htokens : tokens = pre ++ ts ++ post)
    (hkinds : ∀ t ∈ ts, t.kind = .comment ∨ t.kind = .newline) : Keeps ρ pre.length ts.length := by
  refine h.keeps htokens ?_ ?_
  · rintro a t b rfl hkind
    rcases hkinds t (by simp) with h | h <;> rw [h] at hkind <;> cases hkind
  · rintro a t b rfl hkind
    rcases hkinds t (by simp) with h | h <;> rw [h] at hkind <;> cases hkind

private theorem Rescan.docstring_rows {r text : Text} {ls : List Text} {toks : List Token}
    (hρ : RevisesSoundly ρ tokens) (hr : r = u ++ ['\n']) (htext : text = o.text ++ body)
    (hdepth : st.depth = 0) (hcontinued : st.continued = false) (hpending : st.pending = none)
    (hst : st.Moved row row' st') (hlead : ∀ c ∈ lead, isSpacing c = true)
    (ho : o ∈ Opening.all) (hclose : closingLength? o.quote body = some body.length)
    (hu : '\n' ∉ u)
    (hmoves : adjustIndents st.indents row lead (firstRow (lead ++ (text ++ r))) =
      .ok (indents, moves))
    (hscan : scanLines st row (Text.rawLines (lead ++ (text ++ r)) ++ ls) = .ok (toks, last))
    (hnever : NeverContinued st row (Text.rawLines (lead ++ (text ++ r)) ++ ls))
    (hlast : last.pending = none) (htokens : tokens = pre ++ toks ++ post)
    (hpre : depthOf pre = 0) (hreplace : ρ (pre ++ moves).length = .replace new)
    (hx : lastRow x = []) (hrow : row = (place x).row)
    (hrest : ∀ before more n, toks = before ++ more →
      scanLines ⟨indents, 0, false, none⟩ n ls = .ok (more, last) →
      NeverContinued ⟨indents, 0, false, none⟩ n ls → depthOf (pre ++ before) = 0 →
      n = (place (x ++ (lead ++ (text ++ r)))).row → ∀ n', ∃ ps ls' toks' last',
        Rescan ρ (pre ++ before).length (x ++ (lead ++ (text ++ r))) 0 more last [] ls.flatten
          ⟨indents, 0, false, none⟩ n' ps ls' toks' last') :
    ∃ ps ls' toks' last', Rescan ρ pre.length x 0 toks last [] (lead ++ (text ++ r) ++ ls.flatten)
      st' row' ps ls' toks' last' := by
  have hdocstring := hρ.replace _ _ hreplace
  have hnew := hρ.literal _ _ hreplace
  have hends : ∀ t after, toks = moves ++ t :: after → endsStatement (after ++ post) = true := by
    rintro t after rfl
    refine (hdocstring.of_split (t := t) ?_).2.2.2.2
    rw [htokens]
    simp
  obtain ⟨more, rfl, hrows, hmore, hkinds, hzero, hjoined, hnone⟩ := scan_docstring_rows hr htext
    hdepth hcontinued hpending hlead ho hclose hu hmoves hscan hnever hlast hends
  have hcomplete : lastRow (lead ++ (text ++ r)) = [] := by
    rw [hr, ← List.append_assoc, ← List.append_assoc, lastRow_append_newline]
    rfl
  have hlines := isLine_of_mem_rawLines hcomplete
  have hplace : (⟨row, lead.size⟩ : Place) = place (x ++ lead) := by
    have hleadMem : '\n' ∉ lead := fun h => isSpacing_ne_newline (hlead _ h) rfl
    rw [place_append_of_not_mem x hleadMem, hrow, place_column, hx]
    simp
  generalize hl : scanFrom (row + (lead ++ text).count '\n') (lastRow (lead ++ text) ++ r)
    (lastRow (lead ++ text)).size 0 r = l at *
  generalize ht : (⟨.string, text, ⟨row, lead.size⟩, ⟨row + (lead ++ text).count '\n',
    (lastRow (lead ++ text)).size⟩, lead ++ (text ++ r)⟩ : Token) = t at *
  have hsplit : tokens = pre ++ moves ++ (t :: l.tokens ++ more ++ post) := by
    rw [htokens]
    simp
  have hbehind : tokens = pre ++ moves ++ [t] ++ l.tokens ++ (more ++ post) := by
    rw [hsplit]
    simp
  have hindent := hdocstring.indent_of_moves hmoves hsplit
  have hkeepsMoves : Keeps ρ pre.length moves.length :=
    (hρ.keeps_moves hmoves hsplit).1
  have hkeepsRest := hρ.keeps_line_end hbehind hkinds
  rw [List.length_append, List.length_append, List.length_singleton] at hkeepsRest
  rw [List.length_append] at hreplace
  obtain ⟨before', hscan', hnever', hrelated⟩ := scan_replaced_rows (t := t) hr hu hst hdepth
    hcontinued hpending hlead hnew hmoves hl.symm hjoined hzero hnone hindent hkinds hkeepsMoves
    hreplace hkeepsRest (by rw [← ht]) (by rw [← ht])
  -- The pieces of the rows.
  have hclosed : Remembers st.continued st.pending x [] []
      ((Text.rawLines (lead ++ (text ++ r))).flatten ++ ls.flatten) := by
    rw [hcontinued, hpending]
    exact remembers_closed _ _
  obtain ⟨qs, tail, pend, hreads, hgaps⟩ := scanLines_reads hrows hclosed
    (fun _ => ⟨by simpa using hx, by simpa using hrow⟩) (rows_of_isLine hlines _)
  have hspell : lead ++ (text ++ r) = spell qs ++ tail ++ pend := by
    have h := hreads.text
    rwa [Text.flatten_rawLines] at h
  have hend : lastRow (x ++ spell qs ++ tail ++ pend) = [] := by
    rw [List.append_assoc, List.append_assoc, ← List.append_assoc (spell qs), ← hspell, hr]
    simp only [← List.append_assoc]
    rw [lastRow_append_newline]
    rfl
  obtain ⟨rfl, rfl⟩ := hreads.remembers.nothing_left hend
  rw [List.append_nil, List.append_nil] at hspell
  obtain ⟨qm, p, qr, rfl, hqm, hp, hqr, hleadEq, hrEq⟩ := exists_docstring_pieces hreads.laid
    hreads.tokens hspell.symm (by rw [← ht]) (by rw [← ht]; exact hplace)
  have hrevised : revisedText ρ pre.length (qm ++ p :: qr) = lead ++ (new ++ r) := by
    have hqmLength : moves.length = qm.length := by rw [hqm, List.length_map]
    have hqrLength : l.tokens.length = qr.length := by rw [hqr, List.length_map]
    rw [hqmLength] at hkeepsMoves hreplace hkeepsRest
    rw [hqrLength] at hkeepsRest
    rw [revisedText_append, hkeepsMoves.revisedText, revisedText, hreplace, hkeepsRest.revisedText,
      hleadEq, hrEq]
    simp [Revision.textOf]
  have hdepthAll : depthOf (pre ++ (moves ++ t :: l.tokens)) = 0 := by
    rw [depthOf_append, hpre]
    intro m hm
    rcases List.mem_append.mp hm with hm | hm
    · simp [hindent m hm]
    · rcases List.mem_cons.mp hm with rfl | hm
      · simp [← ht]
      · rcases hkinds m hm with h | h <;> simp [h]
  obtain ⟨ps, ls', toks', last', h⟩ := hrest _ more _ rfl hmore (hnever.append_right hrows) hdepthAll
    (by rw [length_rawLines hcomplete, hrow]; simp; omega)
    (row' + (Text.rawLines (lead ++ (new ++ r))).length)
  rw [List.length_append, hspell] at h
  have hcomplete' : lastRow (lead ++ (new ++ r)) = [] := by
    rw [hr, ← List.append_assoc, ← List.append_assoc, lastRow_append_newline]
    rfl
  refine ⟨_, _, _, _, Rescan.prepend (g := Text.rawLines (lead ++ (new ++ r))) h hreads.tokens ?_ ?_ ?_
    (isLine_of_mem_rawLines hcomplete') ?_ hscan' hnever' hrelated⟩
  · rw [hspell, List.nil_append, List.append_nil]
  · have hlaid := hreads.laid
    rw [hdepth] at hlaid
    simpa [Scanner.lineScan] using hlaid
  · exact (hgaps hnever.append_left (by simp)).1
  · rw [hrevised, Text.flatten_rawLines, List.append_nil, List.nil_append]

private theorem Rescan.replaced_rows {y : Text} {ls : List Text} {ts : List Token} {t : Token}
    (hρ : RevisesSoundly ρ tokens) (hdepth : st.depth = 0) (hcontinued : st.continued = false)
    (hpending : st.pending = none) (hst : st.Moved row row' st')
    (hlead : ∀ c ∈ lead, isSpacing c = true) (hcode : startsCode y = true)
    (hmoves : adjustIndents st.indents row lead (lead ++ y) = .ok (indents, moves))
    (hlines : ∀ l ∈ (lead ++ y) :: ls, IsLine l)
    (hscan : scanLines st row ((lead ++ y) :: ls) = .ok (moves ++ t :: ts, last))
    (hnever : NeverContinued st row ((lead ++ y) :: ls)) (hlast : last.pending = none)
    (htokens : tokens = pre ++ (moves ++ t :: ts) ++ post) (hpre : depthOf pre = 0)
    (hreplace : ρ (pre ++ moves).length = .replace new) (hx : lastRow x = [])
    (hrow : row = (place x).row)
    (hrest : ∀ (rows : List Text) (pre more : List Token) (x : Text) (n n' : Nat),
      rows.length ≤ ls.length → (∀ l ∈ rows, IsLine l) →
      scanLines ⟨indents, 0, false, none⟩ n rows = .ok (more, last) →
      NeverContinued ⟨indents, 0, false, none⟩ n rows → tokens = pre ++ more ++ post →
      depthOf pre = 0 → lastRow x = [] → n = (place x).row → ∃ ps ls' toks' last',
        Rescan ρ pre.length x 0 more last [] rows.flatten ⟨indents, 0, false, none⟩ n' ps ls' toks'
          last') :
    ∃ ps ls' toks' last', Rescan ρ pre.length x 0 (moves ++ t :: ts) last []
      (lead ++ y ++ ls.flatten) st' row' ps ls' toks' last' := by
  have hwhole : tokens = pre ++ moves ++ t :: (ts ++ post) := by
    rw [htokens]
    simp
  have hliteral := ((hρ.replace _ new hreplace).of_split hwhole).2.1
  obtain ⟨o, ho, body, u, rows, hclose, hu, hfirst, hsplit⟩ := exists_docstring_rows hdepth hcontinued
    hpending hlead hcode hmoves hlines hscan hnever hlast hliteral
  have hcomplete : ∀ z : Text, lastRow (z ++ (lead ++ ((o.text ++ body) ++ (u ++ ['\n'])))) = [] := by
    intro z
    simp only [← List.append_assoc]
    rw [lastRow_append_newline]
    rfl
  have hflat : lead ++ y ++ ls.flatten =
      lead ++ ((o.text ++ body) ++ (u ++ ['\n'])) ++ rows.flatten := by
    rw [← List.flatten_cons, hsplit, List.flatten_append, Text.flatten_rawLines]
  have hfewer : rows.length ≤ ls.length := by
    have hlength := congrArg List.length hsplit
    have hbreak : 0 < List.count '\n' (lead ++ ((o.text ++ body) ++ (u ++ ['\n']))) :=
      List.count_pos_iff.mpr (by simp)
    have hrows : lastRow (lead ++ ((o.text ++ body) ++ (u ++ ['\n']))) = [] := hcomplete []
    rw [List.length_cons, List.length_append, length_rawLines hrows] at hlength
    omega
  rw [hsplit] at hscan hnever hlines
  rw [hfirst] at hmoves
  rw [hflat]
  refine Rescan.docstring_rows hρ rfl rfl hdepth hcontinued hpending hst hlead ho hclose hu hmoves
    hscan hnever hlast htokens hpre hreplace hx hrow ?_
  intro before more n htoks hmore hnever' hdepth' hn n'
  refine hrest rows _ more _ n n' hfewer (fun l hl => hlines l (List.mem_append_right _ hl)) hmore
    hnever' ?_ hdepth' (hcomplete x) hn
  rw [htokens, htoks]
  simp

end Docstrings

section Sources

variable {ρ : Nat → Revision} {tokens pre post toks : List Token} {st st' last : Scanner}
  {row row' : Nat} {x tail pend : Text} {ls : List Text}

private theorem exists_rescan (hρ : RevisesSoundly ρ tokens)
    (hscan : scanLines st row ls = .ok (toks, last))
    (hlines : ∀ l ∈ ls, IsLine l) (hnever : NeverContinued st row ls) (hlast : last.pending = none)
    (htokens : tokens = pre ++ toks ++ post) (hdepth : depthOf pre = st.depth)
    (hremembers : Remembers st.continued st.pending x tail pend ls.flatten) (htail : '\n' ∉ tail)
    (hrow : lastRow (x ++ tail ++ pend) = []) (hr : row = (place (x ++ tail ++ pend)).row)
    (hpend : st.pending ≠ none → ∀ text, ρ pre.length ≠ .replace text)
    (hst : st.Moved row row' st') :
    ∃ ps ls' toks' last', Rescan ρ pre.length x st.depth toks last (tail ++ pend) ls.flatten st' row'
      ps ls' toks' last' := by
  -- The rows of a docstring are taken together, all other rows one by one.
  obtain ⟨n, hn⟩ : ∃ n, ls.length = n := ⟨_, rfl⟩
  induction n using Nat.strong_induction_on generalizing ls st st' row row' pre toks x tail pend with
  | _ n ih =>
    have hcontinued : st.continued = false := hnever 0 [] st rfl
    cases ls with
    | nil =>
      cases hscan
      rw [hcontinued, hlast] at hremembers
      obtain ⟨rfl, rfl⟩ := hremembers.nothing_left hrow
      exact ⟨[], [], [], st', rfl, rfl, .nil, by simp, by simp, rfl, rfl,
        neverContinued_nil (hst.continued.trans hcontinued) _,
        .of_closed hst.indents hst.depth hst.continued hlast
          (hst.pending_eq_none_iff.mpr hlast) _ _, .nil⟩
    | cons line ls =>
      obtain ⟨mid, before, more, hline, hmore, rfl⟩ := scanLines_cons hscan
      obtain ⟨hmid, hnever'⟩ := hnever.cons hline
      have hcomplete := hlines line List.mem_cons_self
      have hlines' : ∀ l ∈ ls, IsLine l := fun l hl => hlines l (List.mem_cons_of_mem line hl)
      rw [List.flatten_cons] at hremembers ⊢
      obtain ⟨qs, tail₁, pend₁, hreads, hwithin⟩ := readsLine_scanLine hline hremembers hrow hr
        (hcomplete.isRow ls.flatten) hcomplete.ne_nil
      have hfree := hwithin.newlineFree htail
      obtain ⟨hrow₁, hr₁, hdepth₁⟩ := next_row_of_reads hreads hcomplete hr hdepth
      have htokens₁ : tokens = pre ++ before ++ more ++ post := by
        rw [htokens]
        simp
      have htokens₂ : tokens = pre ++ before ++ (more ++ post) := by
        rw [htokens₁, List.append_assoc]
      have hkeep : Keeps ρ pre.length before.length →
          (mid.pending ≠ none → ∀ text, ρ (pre ++ before).length ≠ .replace text) →
          ∃ ps ls' toks' last', Rescan ρ pre.length x st.depth (before ++ more) last (tail ++ pend)
            (line ++ ls.flatten) st' row' ps ls' toks' last' := by
        intro hkeeps hnext
        refine Rescan.keep_row hline hreads hfree.1 hkeeps hcomplete hst hcontinued hmid ?_
        intro next hmoved
        have h := ih ls.length (by rw [← hn]; simp) hmore hlines' hnever' htokens₁ hdepth₁
          hreads.remembers (hfree.2 hmid) hrow₁ hr₁ hnext hmoved rfl
        rwa [List.length_append] at h
      cases hp : st.pending with
      | some p =>
        rw [scanLine, hp] at hline
        obtain ⟨hkeeps, hnext⟩ := hρ.keeps_string_row (Except.ok.inj hline) htokens₂ hdepth
          (hpend (by simp [hp]))
        exact hkeep hkeeps hnext
      | none =>
        by_cases hzero : st.depth = 0
        · rw [hcontinued, hp] at hremembers
          obtain ⟨rfl, rfl⟩ := hremembers.nothing_left hrow
          rw [List.append_nil, List.append_nil] at hrow hr
          obtain ⟨lead, y, rfl, hlead, ⟨-, rfl, rfl⟩ | ⟨hcode, indents, moves, hmoves, hafter⟩⟩ :=
            scanLine_fresh_cases hzero hcontinued hp hline
          · rcases hρ.keeps_codeless_row htokens₂ with hkeeps | ⟨hdrop, t, ht⟩
            · exact hkeep hkeeps (fun h => absurd hp h)
            · rw [ht] at hreads htokens₁ hdepth₁ ⊢
              have hremembers₁ : Remembers mid.continued mid.pending (x ++ spell qs) tail₁ pend₁
                ls.flatten := hreads.remembers
              rw [hcontinued, hp] at hremembers₁
              obtain ⟨rfl, rfl⟩ := hremembers₁.nothing_left hrow₁
              obtain ⟨ps, ls', toks', last', h⟩ := ih ls.length (by rw [← hn]; simp) hmore hlines'
                hnever' htokens₁ hdepth₁ hreads.remembers (by simp) hrow₁ hr₁
                (fun hopen => absurd hp hopen)
                (Scanner.Moved.of_closed hst.indents hst.depth hst.continued hp
                  (hst.pending_eq_none_iff.mpr hp) (row + 1) row') rfl
              rw [List.length_append, List.length_singleton] at h
              exact ⟨_, _, _, _, Rescan.drop_row hreads hfree.1 hdrop
                (hst.continued.trans hcontinued) h⟩
          · obtain ⟨rfl, rfl⟩ := Prod.mk.inj hafter
            by_cases hreplace : ∃ text, ρ (pre ++ moves).length = .replace text
            · obtain ⟨new, hreplace⟩ := hreplace
              obtain ⟨t, ts, hfirst⟩ := exists_first_of_code hcode hmid hmore rfl hlast
              have htoks : moves ++ (scanFrom row (lead ++ y) lead.size 0 y).tokens ++ more =
                  moves ++ t :: ts := by
                rw [List.append_assoc, hfirst]
              rw [htoks] at hscan htokens ⊢
              rw [hzero, List.append_nil]
              refine Rescan.replaced_rows hρ hzero hcontinued hp hst hlead hcode hmoves hlines hscan
                hnever hlast htokens (hdepth.trans hzero) hreplace hrow hr ?_
              -- The rows after the docstring are fewer, and nothing is open before them.
              intro rows pre' more' x' n₁ n₂ hfewer hlines₁ hmore₁ hnever₁ htokens₁ hdepth₁ hrow₁ hn₁
              exact ih rows.length (by rw [← hn]; exact Nat.lt_succ_of_le hfewer) hmore₁ hlines₁ hnever₁
                htokens₁ hdepth₁ (remembers_closed _ _) (by simp) (by simpa using hrow₁)
                (by simpa using hn₁) (fun hopen => absurd rfl hopen)
                (Scanner.Moved.of_closed rfl rfl rfl rfl rfl n₁ n₂) rfl
            · obtain ⟨hkeeps, hnext⟩ := hρ.keeps_code_row
                (rowTokens_scanFrom row (lead ++ y) lead.size 0 y) hmoves htokens₂
                (hdepth.trans hzero) (fun text h => hreplace ⟨text, h⟩)
              exact hkeep hkeeps hnext
        · -- Inside brackets no line is dropped and no string is a docstring.
          have hfirst : ∀ text, ρ pre.length ≠ .replace text := by
            intro text hreplace
            have hopens := (hρ.replace _ text hreplace).opens
              (htokens₂.trans (List.append_assoc _ _ _))
            exact hzero (hdepth.symm.trans hopens.1)
          rw [scanLine, hp] at hline
          simp only [hzero, false_and, if_false] at hline
          obtain ⟨rfl, rfl⟩ := Prod.mk.inj (Except.ok.inj hline)
          obtain ⟨hkeeps, hnext⟩ := hρ.keeps_scan (rowTokens_scanFrom row line 0 st.depth line)
            htokens₂ hdepth hfirst
          exact hkeep hkeeps hnext

private theorem closingTokens_of_complete {rows : Nat} {lastLine : Text}
    (h : lastLine = [] ∨ hasLineEnding lastLine = true) :
    closingTokens toks st rows lastLine =
      (st.indents.drop 1).map (fun _ => ⟨.dedent, [], ⟨rows + 1, 0⟩, ⟨rows + 1, 0⟩, []⟩) ++
        [⟨.endMarker, [], ⟨rows + 1, 0⟩, ⟨rows + 1, 0⟩, []⟩] := by
  have hopen : (!lastLine.isEmpty && !hasLineEnding lastLine && !endsLine toks) = false := by
    rcases h with rfl | h
    · rfl
    · simp [h]
  simp only [closingTokens, hopen]
  rfl

private theorem hasLineEnding_lastLine (hlines : ∀ l ∈ ls, IsLine l) :
    ls.getLast?.getD [] = [] ∨ hasLineEnding (ls.getLast?.getD []) = true := by
  cases hlast : ls.getLast? with
  | none => exact Or.inl rfl
  | some line =>
    obtain ⟨v, rfl, -⟩ := hlines line (List.mem_of_getLast? hlast)
    simp [hasLineEnding]

private theorem closingTokens_moved {toks' : List Token} {n n' : Nat} {lastLine lastLine' : Text}
    (hst : st.indents = st'.indents) (h : lastLine = [] ∨ hasLineEnding lastLine = true)
    (h' : lastLine' = [] ∨ hasLineEnding lastLine' = true) :
    List.Forall₂ Token.Moved (closingTokens toks st n lastLine)
      (closingTokens toks' st' n' lastLine') := by
  rw [closingTokens_of_complete h, closingTokens_of_complete h', hst]
  refine List.rel_append ?_ (.cons ⟨rfl, rfl, rfl, Nat.add_comm _ _⟩ .nil)
  rw [List.forall₂_map_left_iff, List.forall₂_map_right_iff, List.forall₂_same]
  exact fun _ _ => ⟨rfl, rfl, rfl, Nat.add_comm _ _⟩

/-- A complete source without continued lines, revised, reads as its revised tokens. -/
theorem tokenize_revised {s : Text} (hρ : RevisesSoundly ρ tokens) (hend : lastRow s = [])
    (h : tokenize s = .ok tokens) (hnever : NeverContinued .start 1 s.rawLines) :
    ∃ ps closing depth tokens', Ahead s tokens closing [] [] ps depth ∧
      (∀ t ∈ closing, t.kind ≠ .string ∧ t.kind ≠ .nl ∧ t.kind ≠ .encoding) ∧
      (∀ c : Cursor, c.credit = [] → renderFrom c closing = []) ∧
      tokenize (revisedText ρ 0 ps) = .ok tokens' ∧ Revised ρ 0 tokens tokens' ∧
      NeverContinued .start 1 (revisedText ρ 0 ps).rawLines ∧ lastRow (revisedText ρ 0 ps) = [] := by
  obtain ⟨scanned, st, hscan, hdepth, hcontinued, hpending, htokens⟩ := tokenize_eq_ok h
  have hlines := isLine_of_mem_rawLines hend
  have hkinds : ∀ t ∈ closingTokens scanned st s.rawLines.length (s.rawLines.getLast?.getD []),
      t.kind ≠ .string ∧ t.kind ≠ .nl ∧ t.kind ≠ .encoding := by
    intro t ht
    rcases kind_of_mem_closingTokens ht with hkind | hkind | hkind <;> simp [hkind]
  obtain ⟨ps, ls', toks', last', hrescan⟩ := exists_rescan hρ hscan hlines hnever hpending
    (htokens.trans (by rw [List.nil_append])) rfl (remembers_start _) (by simp) rfl rfl
    (fun hopen => absurd rfl hopen)
    (Scanner.Moved.of_closed rfl rfl rfl rfl rfl 1 1 : Scanner.start.Moved 1 1 .start)
  have hrevised : revisedText ρ 0 ps = ls'.flatten := hrescan.revised
  have hraw := rawLines_flatten hrescan.lines
  have hfinal := hrescan.final
  refine ⟨ps, _, st.depth,
    toks' ++ closingTokens toks' last' ls'.length (ls'.getLast?.getD []), ⟨?_, ?_, ?_, ?_⟩, hkinds,
    ?_, ?_, ?_, ?_, ?_⟩
  · have htext := hrescan.text
    rwa [Text.flatten_rawLines] at htext
  · rw [htokens, hrescan.tokens]
    rfl
  · exact hrescan.laid
  · exact hrescan.gaps
  · intro c hcredit
    obtain ⟨n, hn⟩ :=
      renderFrom_closingTokens c scanned st s.rawLines.length (s.rawLines.getLast?.getD [])
    rw [hn, hcredit]
    simp
  · have hnone := hfinal.pending_eq_none_iff.mpr hpending
    have hzero := hfinal.depth.trans hdepth
    have hclosed := hfinal.continued.trans hcontinued
    rw [hrevised, tokenize, hraw, hrescan.scan]
    simp [bind, Except.bind, hnone, hzero, hclosed]
  · rw [htokens]
    refine hrescan.related.append (Keeps.revised ?_ ((closingTokens_moved hfinal.indents.symm
      (hasLineEnding_lastLine hlines) (hasLineEnding_lastLine hrescan.lines)).imp
        fun _ _ => Token.Moved.kept))
    rw [List.length_nil, Nat.zero_add]
    refine hρ.keeps (htokens.trans (List.append_nil _).symm) ?_ ?_
    · intro a t b hsplit hkind
      exact absurd hkind (hkinds t (by rw [hsplit]; simp)).2.1
    · intro a t b hsplit hkind
      exact absurd hkind (hkinds t (by rw [hsplit]; simp)).1
  · rw [hrevised, hraw]
    exact hrescan.never
  · have hcomplete := lastRow_flatten hrescan.lines (x := []) rfl
    rwa [hrevised]

end Sources

end DocstringFormat.Source
