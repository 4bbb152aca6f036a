import DocstringFormat.Proofs.Source.Moved

/-!
The rows of a docstring.

A triple-quoted string at the start of a logical line is read up to its closing quote, whatever
rows it takes, and the rest of its last row is read after it (`scanLines_docstring`).  So another
string in its place leaves the scanner as it was.
-/

set_option autoImplicit false

namespace DocstringFormat.Source

open Docstring (Opening)

section Complete

def IsLine (l : Text) : Prop :=
  ∃ u, l = u ++ ['\n'] ∧ '\n' ∉ u

theorem IsLine.isRow {l : Text} (h : IsLine l) (rest : Text) : IsRow l rest :=
  Or.inr h

theorem IsLine.ne_nil {l : Text} (h : IsLine l) : l ≠ [] := by
  obtain ⟨u, rfl, -⟩ := h
  simp

theorem rows_of_isLine {ls : List Text} (h : ∀ l ∈ ls, IsLine l) (rest : Text) : Rows ls rest := by
  induction ls with
  | nil => exact True.intro
  | cons l ls ih =>
    have hl := h l List.mem_cons_self
    exact ⟨hl.ne_nil, hl.isRow _, ih fun m hm => h m (List.mem_cons_of_mem l hm)⟩

theorem rawLines_flatten {ls : List Text} (h : ∀ l ∈ ls, IsLine l) :
    Text.rawLines ls.flatten = ls := by
  induction ls with
  | nil => rfl
  | cons l ls ih =>
    obtain ⟨u, rfl, hu⟩ := h l List.mem_cons_self
    rw [List.flatten_cons, List.append_assoc, List.singleton_append, Text.rawLines_append_newline hu,
      ih fun m hm => h m (List.mem_cons_of_mem _ hm)]

theorem isLine_of_mem_rawLines {s : Text} (hs : lastRow s = []) :
    ∀ l ∈ s.rawLines, IsLine l := by
  induction s using Text.line_induction with
  | last b hb =>
    rw [lastRow_of_not_mem hb] at hs
    subst hs
    simp
  | line b s hb ih =>
    rw [lastRow_append_newline] at hs
    rw [Text.rawLines_append_newline hb]
    intro l hl
    rcases List.mem_cons.mp hl with rfl | hl
    · exact ⟨b, rfl, hb⟩
    · exact ih hs l hl

theorem lastRow_flatten {ls : List Text} (h : ∀ l ∈ ls, IsLine l) {x : Text} (hx : lastRow x = []) :
    lastRow (x ++ ls.flatten) = [] := by
  induction ls generalizing x with
  | nil => simpa using hx
  | cons l ls ih =>
    obtain ⟨u, rfl, -⟩ := h l List.mem_cons_self
    rw [List.flatten_cons, ← List.append_assoc]
    apply ih fun m hm => h m (List.mem_cons_of_mem _ hm)
    rw [← List.append_assoc, lastRow_append_newline]
    rfl

theorem rawLines_append_complete {a : Text} (ha : lastRow a = []) (b : Text) :
    Text.rawLines (a ++ b) = Text.rawLines a ++ Text.rawLines b := by
  induction a using Text.line_induction with
  | last c hc =>
    rw [lastRow_of_not_mem hc] at ha
    subst ha
    rfl
  | line c a hc ih =>
    rw [lastRow_append_newline] at ha
    rw [List.append_assoc, List.cons_append, Text.rawLines_append_newline hc,
      Text.rawLines_append_newline hc, ih ha, List.cons_append]

theorem length_rawLines {a : Text} (ha : lastRow a = []) :
    (Text.rawLines a).length = a.count '\n' := by
  induction a using Text.line_induction with
  | last c hc =>
    rw [lastRow_of_not_mem hc] at ha
    subst ha
    rfl
  | line c a hc ih =>
    rw [lastRow_append_newline] at ha
    rw [Text.rawLines_append_newline hc, List.length_cons, ih ha]
    simp [List.count_eq_zero_of_not_mem hc]

theorem firstRow_append_of_mem {y : Text} (hy : '\n' ∈ y) (z : Text) :
    firstRow (y ++ z) = firstRow y := by
  obtain ⟨u, w, rfl, hu⟩ := (Text.newline_split y).resolve_left (fun h => h hy)
  rw [List.append_assoc, firstRow_append_of_not_mem hu, firstRow_append_of_not_mem hu]
  rfl

end Complete

section Continuation

variable {st mid last : Scanner} {row : Nat} {line : Text} {ls ms : List Text}
  {before more : List Token}

theorem neverContinued_nil (hst : st.continued = false) (row : Nat) : NeverContinued st row [] := by
  intro k tokens st' h
  rw [List.take_nil] at h
  cases h
  exact hst

theorem NeverContinued.of_cons (hst : st.continued = false)
    (hline : scanLine st row line = .ok (before, mid)) (h : NeverContinued mid (row + 1) ls) :
    NeverContinued st row (line :: ls) := by
  intro k tokens st' hscan
  cases k with
  | zero =>
    cases hscan
    exact hst
  | succ k =>
    obtain ⟨next, first, others, hline', hothers, -⟩ := scanLines_cons hscan
    cases hline.symm.trans hline'
    exact h k others st' hothers

private theorem scanLines_of_cons (hline : scanLine st row line = .ok (before, mid))
    (h : scanLines mid (row + 1) ls = .ok (more, last)) :
    scanLines st row (line :: ls) = .ok (before ++ more, last) := by
  rw [scanLines]
  simp only [bind, Except.bind, hline, h]
  rfl

theorem scanLines_singleton (hline : scanLine st row line = .ok (before, mid)) :
    scanLines st row [line] = .ok (before, mid) := by
  rw [scanLines]
  simp only [bind, Except.bind, hline, scanLines, pure, Except.pure, List.append_nil]

theorem scanLines_of_append (h : scanLines st row ls = .ok (before, mid))
    (hmore : scanLines mid (row + ls.length) ms = .ok (more, last)) :
    scanLines st row (ls ++ ms) = .ok (before ++ more, last) := by
  induction ls generalizing st row before with
  | nil =>
    cases h
    exact hmore
  | cons line ls ih =>
    obtain ⟨next, first, others, hline, hothers, rfl⟩ := scanLines_cons h
    rw [List.cons_append, List.append_assoc]
    apply scanLines_of_cons hline
    apply ih hothers
    rw [← hmore, List.length_cons]
    congr 1
    omega

theorem NeverContinued.append_left (h : NeverContinued st row (ls ++ ms)) :
    NeverContinued st row ls := by
  intro k tokens st' hscan
  have htake : ls.take k = ls.take (min k ls.length) := by simp
  apply h (min k ls.length) tokens st'
  rw [List.take_append_of_le_length (Nat.min_le_right k ls.length), ← htake]
  exact hscan

theorem NeverContinued.append_right (h : NeverContinued st row (ls ++ ms))
    (hls : scanLines st row ls = .ok (before, mid)) : NeverContinued mid (row + ls.length) ms := by
  induction ls generalizing st row before with
  | nil =>
    cases hls
    exact h
  | cons line ls ih =>
    obtain ⟨next, first, others, hline, hothers, -⟩ := scanLines_cons hls
    have hmore := ih (h.cons hline).2 hothers
    rw [List.length_cons]
    rwa [Nat.add_assoc, Nat.add_comm 1] at hmore

theorem NeverContinued.of_append (h : NeverContinued st row ls)
    (hls : scanLines st row ls = .ok (before, mid))
    (hmore : NeverContinued mid (row + ls.length) ms) : NeverContinued st row (ls ++ ms) := by
  induction ls generalizing st row before with
  | nil =>
    cases hls
    exact hmore
  | cons line ls ih =>
    obtain ⟨next, first, others, hline, hothers, -⟩ := scanLines_cons hls
    refine NeverContinued.of_cons (h 0 [] st rfl) hline (ih (h.cons hline).2 hothers ?_)
    rwa [List.length_cons, Nat.add_comm ls.length, ← Nat.add_assoc] at hmore

end Continuation

section Strings

variable {st : Scanner} {row : Nat} {p : OpenString} {quote body r u : Text}

def stringScan (start : Place) (row depth : Nat) (read text lines r : Text) : LineScan :=
  let stop : Place := ⟨row + read.count '\n', (lastRow read).size⟩
  (scanFrom stop.row (lastRow read ++ r) stop.column depth r).push
    ⟨.string, text, start, stop, lines⟩

private theorem closingLength?_first_row (hquote : '\n' ∉ quote) (hne : quote ≠ []) {b : Text}
    (h : closingLength? quote (b ++ '\n' :: body) = some (b ++ '\n' :: body).length) :
    closingLength? quote (b ++ ['\n']) = none ∧ closingLength? quote body = some body.length := by
  have hnone : closingLength? quote (b ++ ['\n']) = none := by
    cases hsome : closingLength? quote (b ++ ['\n']) with
    | none => rfl
    | some n =>
      exfalso
      obtain ⟨inner, rest, hb, hn⟩ := closingLength?_eq_some hsome
      have hall := closingLength?_append hsome body
      rw [← List.append_cons, h] at hall
      have hlength := congrArg List.length hb
      simp only [Option.some.injEq, List.length_append, List.length_cons, List.length_nil] at hall hlength
      rw [List.length_append] at hn
      have hrest : rest = [] := List.length_eq_zero_iff.mp (by omega)
      rw [hrest, List.append_nil] at hb
      have hlast := congrArg List.getLast? hb
      rw [List.getLast?_append_of_ne_nil inner hne] at hlast
      apply hquote
      apply List.mem_of_getLast?
      rw [← hlast]
      simp
  refine ⟨hnone, ?_⟩
  rw [closingLength?_append_line hquote hne hnone] at h
  obtain ⟨n, hn, hlength⟩ := Option.map_eq_some_iff.mp h
  rw [hn]
  simp only [List.length_append, List.length_cons] at hlength
  congr 1
  omega

theorem exists_append_quote (h : closingLength? quote body = some body.length) :
    ∃ inner, body = inner ++ quote := by
  obtain ⟨inner, extra, hbody, hlength⟩ := closingLength?_eq_some h
  have htotal := congrArg List.length hbody
  rw [List.length_append, ← hlength] at htotal
  have hextra : extra = [] := List.length_eq_zero_iff.mp (by omega)
  exact ⟨inner, by rw [hbody, hextra, List.append_nil]⟩

theorem closingLength?_take (hne : quote ≠ []) {s : Text} {n : Nat}
    (h : closingLength? quote s = some n) :
    closingLength? quote (s.take n) = some (s.take n).length := by
  induction s using escape_induction generalizing n with
  | nil => cases h
  | lone => cases h
  | escape d s ih =>
    rw [closingLength?_escape] at h
    obtain ⟨m, hm, rfl⟩ := Option.map_eq_some_iff.mp h
    rw [List.take_succ_cons, List.take_succ_cons, closingLength?_escape, ih hm]
    rfl
  | plain c s hc ih =>
    rw [closingLength?_plain hc] at h
    split at h
    · rename_i hquote
      cases h
      have hprefix := List.isPrefixOf_iff_prefix.mp hquote
      rw [← List.prefix_iff_eq_take.mp hprefix]
      obtain ⟨d, q, hq⟩ := List.exists_cons_of_ne_nil hne
      have hd : d ≠ '\\' := by
        rw [hq] at hprefix
        rw [(List.cons_prefix_cons.mp hprefix).1]
        exact hc
      conv_lhs => rw [hq, closingLength?_plain hd, ← hq]
      rw [if_pos (List.isPrefixOf_iff_prefix.mpr List.prefix_rfl)]
    · rename_i hquote
      obtain ⟨m, hm, rfl⟩ := Option.map_eq_some_iff.mp h
      rw [List.take_succ_cons, closingLength?_plain hc, if_neg, ih hm]
      · rfl
      · intro hprefix
        apply hquote
        rw [List.isPrefixOf_iff_prefix] at hprefix ⊢
        exact hprefix.trans (List.prefix_cons_inj c |>.mpr (List.take_prefix _ _))

private theorem rawLines_row (hu : '\n' ∉ u) : Text.rawLines (u ++ ['\n']) = [u ++ ['\n']] := by
  rw [Text.rawLines_append_newline hu]
  rfl

private theorem scanLines_pending (hp : st.pending = some p) (hst : st.continued = false)
    (hlength : p.quote.length = 3) (hquote : '\n' ∉ p.quote)
    (hclose : closingLength? p.quote body = some body.length) (hu : '\n' ∉ u) :
    let l := stringScan p.start row st.depth body (p.text ++ body) (p.lines ++ (body ++ (u ++ ['\n'])))
      (u ++ ['\n'])
    scanLines st row (Text.rawLines (body ++ (u ++ ['\n']))) =
        .ok (Scanner.after st.indents [] l) ∧
      (l.continued = false → NeverContinued st row (Text.rawLines (body ++ (u ++ ['\n'])))) := by
  have hne : p.quote ≠ [] := by
    intro hnil
    simp [hnil] at hlength
  induction body using Text.line_induction generalizing st row p with
  | last b hb =>
    have hrows : Text.rawLines (b ++ (u ++ ['\n'])) = [b ++ (u ++ ['\n'])] := by
      rw [← List.append_assoc]
      exact rawLines_row (by simp [hb, hu])
    have hline : scanLine st row (b ++ (u ++ ['\n'])) = .ok (Scanner.after st.indents []
        (stringScan p.start row st.depth b (p.text ++ b) (p.lines ++ (b ++ (u ++ ['\n'])))
          (u ++ ['\n']))) := by
      rw [scanLine, hp]
      simp only [scanInString, closingLength?_append hclose, List.take_left, List.drop_left]
      rw [stringScan, List.count_eq_zero_of_not_mem hb, lastRow_of_not_mem hb]
      rfl
    rw [hrows]
    refine ⟨?_, ?_⟩
    · exact scanLines_singleton hline
    · intro hl
      exact NeverContinued.of_cons hst hline (neverContinued_nil hl _)
  | line b body hb ih =>
    obtain ⟨hnone, hrest⟩ := closingLength?_first_row hquote hne hclose
    have hrows : Text.rawLines (b ++ '\n' :: body ++ (u ++ ['\n'])) =
        (b ++ ['\n']) :: Text.rawLines (body ++ (u ++ ['\n'])) := by
      rw [List.append_assoc, List.cons_append, Text.rawLines_append_newline hb]
    have hline : scanLine st row (b ++ ['\n']) =
        .ok ([], { st with pending := some { p with
          text := p.text ++ (b ++ ['\n']), lines := p.lines ++ (b ++ ['\n']) } }) := by
      rw [scanLine, hp]
      simp only [scanInString, hnone]
      rw [if_neg (by simp [hlength])]
    have hnext := @ih { st with pending := some { p with
        text := p.text ++ (b ++ ['\n']), lines := p.lines ++ (b ++ ['\n']) } } (row + 1)
      { p with text := p.text ++ (b ++ ['\n']), lines := p.lines ++ (b ++ ['\n']) }
      rfl hst hlength hquote hrest hne
    have hcount : (b ++ '\n' :: body).count '\n' = body.count '\n' + 1 := by
      simp [List.count_eq_zero_of_not_mem hb]
    have hscan : stringScan p.start (row + 1) st.depth body (p.text ++ (b ++ ['\n']) ++ body)
        (p.lines ++ (b ++ ['\n']) ++ (body ++ (u ++ ['\n']))) (u ++ ['\n']) =
        stringScan p.start row st.depth (b ++ '\n' :: body) (p.text ++ (b ++ '\n' :: body))
          (p.lines ++ (b ++ '\n' :: body ++ (u ++ ['\n']))) (u ++ ['\n']) := by
      rw [stringScan, stringScan, hcount, lastRow_append_newline]
      have hrow : row + 1 + body.count '\n' = row + (body.count '\n' + 1) := by omega
      simp only [hrow, List.append_assoc, List.cons_append, List.nil_append]
    dsimp only at hnext ⊢
    rw [hscan] at hnext
    rw [hrows]
    refine ⟨?_, ?_⟩
    · exact scanLines_of_cons hline hnext.1
    · intro hl
      exact NeverContinued.of_cons hst hline (hnext.2 hl)

end Strings

section Docstrings

variable {st : Scanner} {row : Nat} {o : Opening} {lead line body u z : Text}
  {indents : List Nat} {moves : List Token}

theorem scanLine_of_code (hdepth : st.depth = 0) (hcontinued : st.continued = false)
    (hpending : st.pending = none) (hlead : ∀ c ∈ lead, isSpacing c = true)
    (hcode : startsCode z = true)
    (hmoves : adjustIndents st.indents row lead (lead ++ z) = .ok (indents, moves)) :
    scanLine st row (lead ++ z) =
      .ok (Scanner.after indents moves (scanFrom row (lead ++ z) lead.size 0 z)) := by
  cases z with
  | nil => cases hcode
  | cons c z =>
    simp only [startsCode, Bool.and_eq_true, Bool.not_eq_true'] at hcode
    have htake : (lead ++ c :: z).takeWhile isSpacing = lead := by
      rw [List.takeWhile_append_of_pos hlead, List.takeWhile_cons_of_neg (by simp [hcode.1]),
        List.append_nil]
    rw [scanLine, hpending]
    simp only [hdepth, hcontinued, scanFresh, htake, List.drop_left, hcode.2, hmoves]
    rfl

theorem scanFrom_opening (ho : o ∈ Opening.all) (row : Nat) (line : Text) (column depth : Nat)
    (z : Text) :
    scanFrom row line column depth (o.text ++ z) =
      match closingLength? o.quote z with
      | some n =>
        (scanFrom row line (column + Text.size (o.text ++ z.take n)) depth (z.drop n)).push
          (tokenAt .string (o.text ++ z.take n) row column line)
      | none => ⟨[], depth, false, some ⟨⟨row, column⟩, o.text ++ z, line, o.quote⟩⟩ := by
  obtain ⟨c, rest, hline, hspace, -, hlex⟩ := lexeme_of_opening ho z
  have hlength : 3 ≤ o.text.length := by
    have hquote := (quote_of_opening ho).1
    rw [Opening.text, List.length_append]
    omega
  have hrest : (o.text ++ z).drop o.text.length = z := List.drop_left
  rw [hline, scanFrom, if_neg (by simp [hspace]), hlex, stringLexeme, hrest]
  cases hclose : closingLength? o.quote z with
  | none =>
    simp only
    rw [if_pos (Or.inl (quote_of_opening ho).1)]
  | some n =>
    have hmore : o.text.length + n = o.text.length + n - 1 + 1 := by omega
    have htext : c :: rest.take (o.text.length + n - 1) = o.text ++ z.take n := by
      rw [← List.take_succ_cons, ← hmore, ← hline, List.take_length_add_append]
    have hdrop : rest.drop (o.text.length + n - 1) = z.drop n := by
      rw [← List.drop_succ_cons (a := c), ← hmore, ← hline, List.drop_length_add_append]
    dsimp only
    rw [htext, hdrop]
    rfl

private theorem startsCode_opening (ho : o ∈ Opening.all) (z : Text) :
    startsCode (o.text ++ z) = true := by
  obtain ⟨c, rest, hline, hspace, hcode, -⟩ := lexeme_of_opening ho z
  rw [hline, startsCode, hspace, hcode]
  rfl

theorem newline_not_mem_opening (ho : o ∈ Opening.all) : '\n' ∉ o.text := by
  have hall : ∀ o ∈ Opening.all, '\n' ∉ o.text := by decide
  exact hall o ho

/-- A docstring at the start of a logical line is read to its end, whatever rows it takes, and then
the rest of its last row. -/
theorem scanLines_docstring (hdepth : st.depth = 0) (hcontinued : st.continued = false)
    (hpending : st.pending = none) (hlead : ∀ c ∈ lead, isSpacing c = true)
    (ho : o ∈ Opening.all) (hclose : closingLength? o.quote body = some body.length)
    (hu : '\n' ∉ u)
    (hmoves : adjustIndents st.indents row lead
      (firstRow (lead ++ ((o.text ++ body) ++ (u ++ ['\n'])))) = .ok (indents, moves)) :
    let l := stringScan ⟨row, lead.size⟩ row 0 (lead ++ (o.text ++ body)) (o.text ++ body)
      (lead ++ ((o.text ++ body) ++ (u ++ ['\n']))) (u ++ ['\n'])
    scanLines st row (Text.rawLines (lead ++ ((o.text ++ body) ++ (u ++ ['\n'])))) =
        .ok (Scanner.after indents moves l) ∧
      (l.continued = false →
        NeverContinued st row (Text.rawLines (lead ++ ((o.text ++ body) ++ (u ++ ['\n']))))) := by
  have hleadMem : '\n' ∉ lead := fun h => isSpacing_ne_newline (hlead _ h) rfl
  have hopening := newline_not_mem_opening ho
  obtain ⟨hlength, hquote⟩ := quote_of_opening ho
  have hne : o.quote ≠ [] := by
    intro hnil
    simp [hnil] at hlength
  rcases Text.newline_split body with hbody | ⟨b, rest, rfl, hb⟩
  · -- The whole string stands on one row.
    have hread : '\n' ∉ lead ++ (o.text ++ body) := by simp [hleadMem, hopening, hbody]
    have hsplit : lead ++ ((o.text ++ body) ++ (u ++ ['\n'])) =
        lead ++ (o.text ++ body) ++ u ++ ['\n'] := by simp
    have hfirst : firstRow (lead ++ ((o.text ++ body) ++ (u ++ ['\n']))) =
        lead ++ (o.text ++ (body ++ (u ++ ['\n']))) := by
      rw [hsplit, firstRow_append_of_not_mem (by simp [hleadMem, hopening, hbody, hu])]
      simp [firstRow]
    have hrows : Text.rawLines (lead ++ ((o.text ++ body) ++ (u ++ ['\n']))) =
        [lead ++ (o.text ++ (body ++ (u ++ ['\n'])))] := by
      rw [hsplit, rawLines_row (by simp [hleadMem, hopening, hbody, hu])]
      simp
    rw [hfirst] at hmoves
    have hline := scanLine_of_code hdepth hcontinued hpending hlead
      (startsCode_opening ho (body ++ (u ++ ['\n']))) hmoves
    have hscan : scanFrom row (lead ++ (o.text ++ (body ++ (u ++ ['\n'])))) lead.size 0
        (o.text ++ (body ++ (u ++ ['\n']))) =
        stringScan ⟨row, lead.size⟩ row 0 (lead ++ (o.text ++ body)) (o.text ++ body)
          (lead ++ ((o.text ++ body) ++ (u ++ ['\n']))) (u ++ ['\n']) := by
      rw [scanFrom_opening ho, closingLength?_append hclose]
      simp only [List.take_left, List.drop_left]
      rw [stringScan, List.count_eq_zero_of_not_mem hread, lastRow_of_not_mem hread]
      simp [tokenAt]
    rw [hscan] at hline
    rw [hrows]
    exact ⟨scanLines_singleton hline,
      fun hl => NeverContinued.of_cons hcontinued hline (neverContinued_nil hl _)⟩
  · -- The first row leaves the string open.
    obtain ⟨hnone, hrest⟩ := closingLength?_first_row hquote hne hclose
    have hsplit : lead ++ ((o.text ++ (b ++ '\n' :: rest)) ++ (u ++ ['\n'])) =
        lead ++ (o.text ++ b) ++ '\n' :: (rest ++ (u ++ ['\n'])) := by simp
    have hmem : '\n' ∉ lead ++ (o.text ++ b) := by simp [hleadMem, hopening, hb]
    have hfirst : firstRow (lead ++ ((o.text ++ (b ++ '\n' :: rest)) ++ (u ++ ['\n']))) =
        lead ++ (o.text ++ (b ++ ['\n'])) := by
      rw [hsplit, firstRow_append_of_not_mem hmem]
      simp [firstRow]
    have hrows : Text.rawLines (lead ++ ((o.text ++ (b ++ '\n' :: rest)) ++ (u ++ ['\n']))) =
        (lead ++ (o.text ++ (b ++ ['\n']))) :: Text.rawLines (rest ++ (u ++ ['\n'])) := by
      rw [hsplit, Text.rawLines_append_newline hmem]
      simp
    rw [hfirst] at hmoves
    have hline := scanLine_of_code hdepth hcontinued hpending hlead
      (startsCode_opening ho (b ++ ['\n'])) hmoves
    rw [scanFrom_opening ho, hnone] at hline
    have hmore := @scanLines_pending ⟨indents, 0, false, some ⟨⟨row, lead.size⟩,
      o.text ++ (b ++ ['\n']), lead ++ (o.text ++ (b ++ ['\n'])), o.quote⟩⟩ (row + 1) _ rest u rfl rfl
      hlength hquote hrest hu
    have hcount : (lead ++ (o.text ++ (b ++ '\n' :: rest))).count '\n' = rest.count '\n' + 1 := by
      simp [List.count_eq_zero_of_not_mem hleadMem, List.count_eq_zero_of_not_mem hopening,
        List.count_eq_zero_of_not_mem hb]
    have hlast : lastRow (lead ++ (o.text ++ (b ++ '\n' :: rest))) = lastRow rest := by
      rw [← List.append_assoc, ← List.append_assoc, lastRow_append_newline]
    have hscan : stringScan ⟨row, lead.size⟩ (row + 1) 0 rest (o.text ++ (b ++ ['\n']) ++ rest)
        (lead ++ (o.text ++ (b ++ ['\n'])) ++ (rest ++ (u ++ ['\n']))) (u ++ ['\n']) =
        stringScan ⟨row, lead.size⟩ row 0 (lead ++ (o.text ++ (b ++ '\n' :: rest)))
          (o.text ++ (b ++ '\n' :: rest))
          (lead ++ ((o.text ++ (b ++ '\n' :: rest)) ++ (u ++ ['\n']))) (u ++ ['\n']) := by
      rw [stringScan, stringScan, hcount, hlast]
      have hrow : row + 1 + rest.count '\n' = row + (rest.count '\n' + 1) := by omega
      simp only [hrow, List.append_assoc, List.cons_append, List.nil_append]
    dsimp only at hmore
    rw [hscan] at hmore
    rw [hrows]
    refine ⟨?_, fun hl => NeverContinued.of_cons hcontinued hline (hmore.2 hl)⟩
    have hall := scanLines_of_cons hline hmore.1
    simpa [Scanner.after] using hall

end Docstrings

end DocstringFormat.Source
