import DocstringFormat.Proofs.Docstring.Checked
import DocstringFormat.Proofs.Source.Coverage
import DocstringFormat.Proofs.Source.Touched

/-!
Formatting has a value, tabs of extreme width aside.

Scanning cuts every token out of the source at its places, and counts no further than the source is
long (`inBounds_of_scanLines`).  From the tokens on, a source is formatted here once more with every
cut and every difference checked (`checkedFormat`), and that gives the same
(`checkedFormat_eq_result`).  So nothing but the tabs in front of a docstring, times the tab width,
can leave the range of numbers, and exactly then there is no result.
-/

set_option autoImplicit false

namespace DocstringFormat.Source

section Bounds

/-- The cuts and the numbers of a scan of the first lines of a source. -/
structure InBounds (s : Text) (tokens : List Token) (st : Scanner) : Prop where
  cuts : ∀ t ∈ tokens, s.cut (offset s t.start) (offset s t.stop) = .ok t.text
  lines : ∀ t ∈ tokens, s.cut (offset s ⟨t.start.row, 0⟩)
    (offset s ⟨t.start.row, 0⟩ + t.line.size) = .ok t.line
  rows : ∀ t ∈ tokens, t.start.row ≤ t.stop.row ∧ t.stop.row ≤ s.size + 1
  columns : ∀ t ∈ tokens, t.start.column ≤ s.size ∧ t.stop.column ≤ s.size
  depth : st.depth ≤ s.size

private theorem indentColumn_le (column : Nat) (s : Text) :
    indentColumn column s ≤ column + 8 * s.size := by
  induction s generalizing column with
  | nil => simp [indentColumn]
  | cons c s ih =>
    have hc := c.utf8Size_pos
    rw [indentColumn, Text.size_cons]
    split
    · have h := ih ((column / 8 + 1) * 8)
      omega
    · split
      · have h := ih 0
        omega
      · have h := ih (column + 1)
        omega

private theorem indentColumn_line_le {s line : Text} (hline : line ∈ s.rawLines) :
    indentColumn 0 (line.takeWhile isSpacing) ≤ 8 * s.size := by
  obtain ⟨earlier, later, hlines⟩ := List.append_of_mem hline
  have hcolumn := indentColumn_le 0 (line.takeWhile isSpacing)
  have hparts := congrArg Text.size (List.takeWhile_append_dropWhile (p := isSpacing) (l := line))
  have hsource := congrArg Text.size (Text.flatten_rawLines s)
  rw [hlines, List.flatten_append, List.flatten_cons, Text.size_append, Text.size_append] at hsource
  rw [Text.size_append] at hparts
  omega

private theorem count_le_size (c : Char) (s : Text) : s.count c ≤ s.size := by
  induction s with
  | nil => simp
  | cons d s ih =>
    have hd := d.utf8Size_pos
    rw [List.count_cons, Text.size_cons]
    split <;> omega

variable {s : Text} {tokens : List Token} {st : Scanner}

private theorem Laid.depth_le {depth last : Nat} {x rest : Text} {ps : List Piece}
    (h : Laid depth x ps rest last) : last ≤ depth + Text.size (spell ps) := by
  induction h with
  | nil => exact Nat.le_add_right _ _
  | @cons depth last x rest p ps hfits _ ih =>
    have hafter : p.token.depthAfter depth ≤ depth + p.token.text.size := by
      rw [Token.depthAfter, depthAfterToken]
      split
      · rename_i hop
        have hlawful := hfits.lawful
        simp only [Token.Lawful, hop, Lexical] at hlawful
        have hpos := Text.size_pos hlawful.1
        rw [depthAfter]
        split
        · omega
        · split <;> omega
      · omega
    rw [spell_cons, Text.size_append, Text.size_append]
    omega

private theorem Token.Stands.rows_le {t : Token} {x y : Text} (h : t.Stands x y) :
    t.stop.row ≤ Text.size (x ++ t.text ++ y) + 1 := by
  have hx := count_le_size '\n' x
  have ht := count_le_size '\n' t.text
  have hlast := (List.dropLast_sublist t.text).count_le '\n'
  rw [h.stop, stopPlace]
  simp only [Text.size_append]
  split <;> simp only [place_row, List.count_append] <;> omega

private theorem cut_rowsBetween (s : Text) {first last : Nat} (hrows : first ≤ last) :
    s.cut (offset s ⟨first, 0⟩) (offset s ⟨first, 0⟩ + Text.size (rowsBetween s first last)) =
      .ok (rowsBetween s first last) := by
  have hupto : ((s.rawLines.take last).take (first - 1)).flatten ++ rowsBetween s first last =
      (s.rawLines.take last).flatten := by
    rw [rowsBetween, ← List.flatten_append, List.take_append_drop]
  have hs : s = (s.rawLines.take (first - 1)).flatten ++
      (rowsBetween s first last ++ (s.rawLines.drop last).flatten) := by
    rw [List.take_take, Nat.min_eq_left (by omega)] at hupto
    rw [← List.append_assoc, hupto, ← List.flatten_append, List.take_append_drop,
      Text.flatten_rawLines]
  have h := Text.cut_append (s.rawLines.take (first - 1)).flatten (rowsBetween s first last)
    (s.rawLines.drop last).flatten
  rwa [← hs] at h

private theorem inBounds_of_scanLines {ls rest : List Text} (hlines : s.rawLines = ls ++ rest)
    (h : scanLines .start 1 ls = .ok (tokens, st)) : InBounds s tokens st := by
  have hstands := fun t (ht : t ∈ tokens) => exists_stands hlines h ht
  constructor
  case cuts =>
    intro t ht
    obtain ⟨x, y, hx, rfl⟩ := hstands t ht
    have hcovers := hx.covers
    rw [hcovers.start, hcovers.stop, Text.size_append, List.append_assoc]
    exact Text.cut_append _ _ _
  case lines =>
    intro t ht
    obtain ⟨x, y, hx, rfl⟩ := hstands t ht
    rw [hx.line_eq]
    exact cut_rowsBetween _ hx.row_le
  case rows =>
    intro t ht
    obtain ⟨x, y, hx, rfl⟩ := hstands t ht
    exact ⟨hx.row_le, hx.rows_le⟩
  case columns =>
    intro t ht
    obtain ⟨x, y, hx, rfl⟩ := hstands t ht
    have hstart := hx.covers.start
    have hstop := hx.covers.stop
    simp only [offset, Text.size_append] at hstart hstop ⊢
    omega
  case depth =>
    obtain ⟨ps, y, -, rfl, hlaid⟩ := exists_laid hlines h
    have hdepth := hlaid.depth_le
    rw [Text.size_append]
    omega

end Bounds

section Rendering

def Cursor.checkedGap (cur : Cursor) (t : Token) : Except Fault Text := do
  let isNewRow := cur.place.row < t.start.row
  let joint ←
    if isNewRow ∧ isJoined cur.line ∧ cur.significant ≠ some .comment then
      let kept := cur.line.dropEndWhile (fun c => c ∈ [' ', '\t', '\r', '\n', '\\'])
      cur.line.cut kept.size cur.line.size
    else .ok []
  let column := if isNewRow then 0 else cur.place.column
  let spacing :=
    if column < t.start.column then (t.line.extract? column t.start.column).getD [] else []
  return joint ++ spacing

private theorem Cursor.checkedGap_eq (cur : Cursor) (t : Token) :
    cur.checkedGap t = .ok (cur.gap t) := by
  have hcut : cur.line.cut
      (Text.size (cur.line.dropEndWhile (fun c => c ∈ [' ', '\t', '\r', '\n', '\\'])))
      cur.line.size = .ok (joinedEnd cur.line) := by
    have hline := Text.dropEndWhile_append
      (fun c => decide (c ∈ [' ', '\t', '\r', '\n', '\\'])) cur.line
    have h := Text.cut_append (cur.line.dropEndWhile
      (fun c => c ∈ [' ', '\t', '\r', '\n', '\\'])) (joinedEnd cur.line) []
    rw [List.append_nil, ← Text.size_append] at h
    rw [joinedEnd] at h ⊢
    rwa [hline] at h
  simp only [Cursor.checkedGap, Cursor.gap, hcut]
  split <;> rfl

def checkedRenderFrom : Cursor → List Token → Except Fault Text
  | _, [] => .ok []
  | cur, t :: rest =>
    if t.kind = .encoding then checkedRenderFrom cur rest
    else do
      let gap ← cur.checkedGap t
      let later ← checkedRenderFrom (cur.advance t) rest
      return gap ++ t.text ++ later

private theorem checkedRenderFrom_eq (cur : Cursor) (tokens : List Token) :
    checkedRenderFrom cur tokens = .ok (renderFrom cur tokens) := by
  induction tokens generalizing cur with
  | nil => rfl
  | cons t rest ih =>
    rw [checkedRenderFrom, renderFrom]
    split
    · exact ih cur
    · rw [Cursor.checkedGap_eq, ih]
      rfl

end Rendering

section Formatting

/-- As `Site.format` without its reports, with the number of rows, the indentation and the layout
checked. -/
def Site.checkedFormat (o : Options) (documented : List Nat) (site : Site) : Except Fault Token :=
  let t := site.token
  if site.isCandidate && (site.opensBlock || documented.contains site.index) &&
      inRange o.lineRange t.start.row t.stop.row then do
    if ← checkLength o.lengthRange t.start.row t.stop.row then
      let indent ← t.firstLine.cut 0 (t.firstLine.size - t.firstLine.trimStart.size)
      let text ← Docstring.checkedFormat o indent t.text
      return t.withText text
    else return t
  else .ok t

/-- As `formatCode` without its reports, with everything after the scan checked. -/
def checkedCode (o : Options) (source : Text) : Except Fault (Except Error Text) :=
  match tokenize source with
  | .error cause => .ok (.error cause)
  | .ok tokens => do
    let documented := (blocks tokens).map Block.docstring
    let formatted ← (sites tokens).mapM (Site.checkedFormat o documented)
    let text ← checkedRenderFrom .start
      (withoutIndices (droppedBlanks o (blocks tokens) (sites tokens)) 0 formatted)
    return .ok text

/-- As `format` without its reports, with everything after the scan checked. -/
def checkedFormat (o : Options) (source : Text) : Except Fault Text := do
  match ← checkedCode o (unixLines source) with
  | .ok formatted => return restoreEndings source formatted
  | .error _ => return source

variable {o : Options} {s : Text} {tokens : List Token}

private theorem checkLength_eq {range : Option RowRange} {first last : Nat} (hrows : first ≤ last)
    (hlast : last + 1 < wordLimit) :
    checkLength range first last = .ok (hasLength range first last) := by
  rw [checkLength, if_neg]
  rintro ⟨-, hlimit | hlimit⟩ <;> omega

private theorem mem_scanned_of_candidate {scanned : List Token} {st : Scanner} {rows : Nat}
    {lastLine : Text} {site : Site}
    (hsite : site ∈ sites (scanned ++ closingTokens scanned st rows lastLine))
    (hcandidate : site.isCandidate = true) : site.token ∈ scanned := by
  obtain ⟨pre, htokens, -, -⟩ := mem_sites hsite
  have hmem : site.token ∈ scanned ++ closingTokens scanned st rows lastLine := by
    rw [htokens]
    exact List.mem_append_right pre List.mem_cons_self
  rcases List.mem_append.mp hmem with hmem | hmem
  · exact hmem
  · simp only [Site.isCandidate, Bool.and_eq_true, beq_iff_eq] at hcandidate
    have hstring : site.token.kind = .string := hcandidate.1.1.1
    rcases kind_of_mem_closingTokens hmem with hkind | hkind | hkind <;>
      rw [hstring] at hkind <;> cases hkind

private theorem rows_of_candidate (h : tokenize s = .ok tokens) {site : Site}
    (hsite : site ∈ sites tokens) (hcandidate : site.isCandidate = true) :
    site.token.start.row ≤ site.token.stop.row ∧ site.token.stop.row ≤ s.size + 1 := by
  obtain ⟨scanned, st, hscan, -, -, -, rfl⟩ := tokenize_eq_ok h
  exact (inBounds_of_scanLines (List.append_nil _).symm hscan).rows _
    (mem_scanned_of_candidate hsite hcandidate)

theorem Site.checkedFormat_eq (h : tokenize s = .ok tokens) (hs : s.size ≤ Text.maxSize)
    {site : Site} (hsite : site ∈ sites tokens) :
    site.checkedFormat o ((blocks tokens).map Block.docstring) =
      (site.format o ((blocks tokens).map Block.docstring)).result := by
  have hbefore := kind_before_ne_encoding h hsite
  generalize (blocks tokens).map Block.docstring = documented
  have heligible : site.isEligible o documented = true ↔ site.IsRewritten o documented :=
    isEligible_iff hbefore
  rw [result_format hbefore, Site.checkedFormat]
  simp only [Site.isEligible, inScope, ← Bool.and_assoc] at heligible
  cases hscope : site.isCandidate && (site.opensBlock || documented.contains site.index) &&
      inRange o.lineRange site.token.start.row site.token.stop.row with
  | false =>
    rw [hscope] at heligible
    have hkept : ¬ site.IsRewritten o documented := fun hrewritten =>
      Bool.false_ne_true (heligible.mpr hrewritten)
    rw [if_neg Bool.false_ne_true, if_neg hkept]
  | true =>
    have hcandidate : site.isCandidate = true := by
      simp only [Bool.and_eq_true] at hscope
      exact hscope.1.1
    obtain ⟨hrows, hlast⟩ := rows_of_candidate h hsite hcandidate
    have hlimit : site.token.stop.row + 1 < wordLimit := by
      simp only [Text.maxSize, wordLimit] at hs ⊢
      omega
    rw [hscope, Bool.true_and] at heligible
    rw [if_pos rfl, checkLength_eq hrows hlimit, Text.cut_leadingBlanks]
    simp only [bind, Except.bind]
    by_cases hin : hasLength o.lengthRange site.token.start.row site.token.stop.row = true
    · rw [if_pos hin, if_pos (heligible.mp hin), Docstring.checkedFormat_eq, Token.lineIndent]
      cases (Docstring.format o site.token.firstLine.leadingBlanks site.token.text).result <;> rfl
    · rw [if_neg hin, if_neg fun hrewritten => hin (heligible.mpr hrewritten)]
      rfl

private theorem mapM_checkedFormat {documented : List Nat} {ss : List Site}
    (h : ∀ site ∈ ss, site.checkedFormat o documented = (site.format o documented).result) :
    ss.mapM (Site.checkedFormat o documented) = (formatSites o documented ss).result := by
  induction ss with
  | nil => rfl
  | cons site ss ih =>
    rw [List.mapM_cons, result_formatSites_cons, h site List.mem_cons_self,
      ih fun other hother => h other (List.mem_cons_of_mem site hother)]
    rcases (site.format o documented).result with fault | t
    · rfl
    · rcases (formatSites o documented ss).result with fault | ts <;> rfl

private theorem checkedCode_eq (o : Options) (hs : s.size ≤ Text.maxSize) :
    checkedCode o s = (formatCode o s).result := by
  cases h : tokenize s with
  | error cause =>
    rw [checkedCode, formatCode, h]
    rfl
  | ok tokens =>
    rw [result_formatCode o h, checkedCode, h]
    simp only
    rw [mapM_checkedFormat fun site hsite => Site.checkedFormat_eq h hs hsite]
    rcases (formatSites o ((blocks tokens).map Block.docstring) (sites tokens)).result with fault | ts
    · rfl
    · simp only [bind, Except.bind, checkedRenderFrom_eq]
      rfl

private theorem size_terminate_le (line : Text) :
    Text.size (Text.terminate ['\n'] line) ≤ line.size := by
  obtain ⟨ending, hline, -⟩ := exists_lineEnding line
  rw [Text.terminate]
  split
  · exact Nat.le_refl _
  · rename_i hlength
    have hne : ending ≠ [] := by
      rintro rfl
      rw [List.append_nil] at hline
      exact hlength (congrArg List.length hline).symm
    have hpos := Text.size_pos hne
    have hsize := congrArg Text.size hline
    have hnewline : Text.size ['\n'] = 1 := rfl
    rw [Text.size_append] at hsize ⊢
    omega

private theorem size_unixLines_le (s : Text) : (unixLines s).size ≤ s.size := by
  have hall : ∀ ls : List Text, Text.size (Text.terminateAll ['\n'] ls) ≤ Text.size ls.flatten := by
    intro ls
    induction ls with
    | nil => exact Nat.le_refl _
    | cons line ls ih =>
      have hline := size_terminate_le line
      rw [Text.terminateAll] at ih
      rw [Text.terminateAll, List.flatMap_cons, List.flatten_cons, Text.size_append,
        Text.size_append]
      omega
  have h := hall s.terminatedLines
  rwa [Text.flatten_terminatedLines] at h

private theorem checkedFormat_eq_result (o : Options) (hs : s.size ≤ Text.maxSize) :
    checkedFormat o s = (format o s).result := by
  rw [checkedFormat, checkedCode_eq o ((size_unixLines_le s).trans hs), result_format_eq]
  rcases (formatCode o (unixLines s)).result with fault | cause | formatted <;> rfl

end Formatting

section Indices

variable {o : Options} {s : Text} {tokens : List Token}

private theorem index_of_mem_blocks (h : tokenize s = .ok tokens) {b : Block}
    (hb : b ∈ blocks tokens) :
    b.anchor ≤ b.docstring ∧ b.docstring < tokens.length := by
  rw [blocks_eq h] at hb
  refine ⟨anchor_le_docstring hb, ?_⟩
  obtain ⟨site, hsite, hblock⟩ := List.mem_filterMap.mp hb
  obtain ⟨pre, htokens, hindex, -⟩ := mem_sites (List.mem_filter.mp hsite).1
  have hlength := congrArg List.length htokens
  rw [List.length_append, List.length_cons] at hlength
  rw [docstring_block? hblock, hindex]
  omega

private theorem index_of_mem_droppedBlanks (h : tokenize s = .ok tokens) {i : Nat}
    (hi : i ∈ droppedBlanks o (blocks tokens) (sites tokens)) : i < tokens.length := by
  obtain ⟨pre, t, post, htokens, rfl, -⟩ := blank_of_dropped h hi
  have hlength := congrArg List.length htokens
  rw [List.length_append, List.length_cons] at hlength
  omega

end Indices

section Faults

variable {o : Options} {reported : List Nat} {s : Text} {tokens : List Token}

/-- The tabs in front of a docstring that is laid out anew, times the tab width less one, are beyond
the range of numbers. -/
structure Site.Overflows (o : Options) (reported : List Nat) (site : Site) : Prop where
  rewritten : site.IsRewritten o reported
  reflowed : Docstring.IsReflowed o site.token.text
  columns : wordLimit ≤ site.token.lineIndent.count '\t' * (o.tabWidth - 1)

theorem Site.result_format_eq_error {site : Site}
    (hbefore : ∀ n ∈ site.before, n.token.kind ≠ .encoding) {fault : Fault} :
    (site.format o reported).result = .error fault ↔
      fault = .overflow ∧ site.Overflows o reported := by
  have hfault := @Docstring.result_format_eq_error o site.token.lineIndent site.token.text fault
  rw [result_format hbefore]
  by_cases hrewritten : site.IsRewritten o reported
  · rw [if_pos hrewritten]
    constructor
    · intro herror
      have herror : (Docstring.format o site.token.lineIndent site.token.text).result =
          .error fault := by
        generalize (Docstring.format o site.token.lineIndent site.token.text).result = result
          at herror
        cases result with
        | error _ =>
          cases herror
          rfl
        | ok _ => cases herror
      obtain ⟨rfl, hreflowed, hcolumns⟩ := hfault.mp herror
      exact ⟨rfl, hrewritten, hreflowed, hcolumns⟩
    · rintro ⟨rfl, -, hreflowed, hcolumns⟩
      rw [hfault.mpr ⟨rfl, hreflowed, hcolumns⟩]
      rfl
  · rw [if_neg hrewritten]
    constructor
    · intro h
      cases h
    · rintro ⟨-, hoverflows⟩
      exact absurd hoverflows.rewritten hrewritten

private theorem result_formatSites_eq_error {ss : List Site}
    (hbefore : ∀ site ∈ ss, ∀ n ∈ site.before, n.token.kind ≠ .encoding) {fault : Fault} :
    (formatSites o reported ss).result = .error fault ↔
      fault = .overflow ∧ ∃ site ∈ ss, site.Overflows o reported := by
  induction ss with
  | nil =>
    constructor
    · intro h
      cases h
    · rintro ⟨-, site, hsite, -⟩
      cases hsite
  | cons site ss ih =>
    have hfirst := fun fault => @Site.result_format_eq_error o reported site
      (hbefore site List.mem_cons_self) fault
    have hrest := ih fun other hother => hbefore other (List.mem_cons_of_mem site hother)
    rw [result_formatSites_cons]
    cases hresult : (site.format o reported).result with
    | error first =>
      obtain ⟨rfl, hoverflows⟩ := (hfirst first).mp hresult
      constructor
      · intro h
        cases h
        exact ⟨rfl, site, List.mem_cons_self, hoverflows⟩
      · rintro ⟨rfl, -⟩
        rfl
    | ok t =>
      have hfine : ¬ site.Overflows o reported := by
        intro hoverflows
        have herror := (hfirst .overflow).mpr ⟨rfl, hoverflows⟩
        rw [hresult] at herror
        cases herror
      have hlater : (∃ other ∈ site :: ss, other.Overflows o reported) ↔
          ∃ other ∈ ss, other.Overflows o reported := by
        simp [hfine]
      rw [hlater, ← hrest]
      cases (formatSites o reported ss).result <;> simp [Except.bind, Except.map]

/-- Some docstring of a source overflows. -/
def TabsOverflow (o : Options) (s : Text) : Prop :=
  ∃ tokens, tokenize s = .ok tokens ∧
    ∃ site ∈ sites tokens, site.Overflows o ((blocks tokens).map Block.docstring)

theorem result_format_eq_error {fault : Fault} :
    (format o s).result = .error fault ↔ fault = .overflow ∧ TabsOverflow o (unixLines s) := by
  rw [result_format_eq]
  cases h : tokenize (unixLines s) with
  | error cause =>
    rw [formatCode, h]
    constructor
    · intro herror
      cases herror
    · rintro ⟨-, tokens, htokens, -⟩
      rw [h] at htokens
      cases htokens
  | ok tokens =>
    have hsites := @result_formatSites_eq_error o ((blocks tokens).map Block.docstring)
      (sites tokens) (fun site hsite => kind_before_ne_encoding h hsite) fault
    have htabs : TabsOverflow o (unixLines s) ↔
        ∃ site ∈ sites tokens, site.Overflows o ((blocks tokens).map Block.docstring) := by
      simp [TabsOverflow, h]
    rw [result_formatCode o h, htabs, ← hsites]
    cases (formatSites o ((blocks tokens).map Block.docstring) (sites tokens)).result <;>
      simp [Except.map]

private theorem TabsOverflow.le_size (h : TabsOverflow o s) :
    wordLimit ≤ s.size * (o.tabWidth - 1) := by
  obtain ⟨tokens, htokens, site, hsite, hoverflows⟩ := h
  obtain ⟨scanned, st, hscan, -, -, -, rfl⟩ := tokenize_eq_ok htokens
  have hcount : site.token.lineIndent.count '\t' ≤ s.size := by
    obtain ⟨x, y, hstands, rfl⟩ := exists_stands (List.append_nil _).symm hscan
      (mem_scanned_of_candidate hsite hoverflows.rewritten.1)
    have hindent : List.Sublist site.token.lineIndent site.token.line :=
      (List.takeWhile_sublist _).trans (List.takeWhile_sublist _)
    exact ((hindent.trans hstands.line_sublist).count_le '\t').trans (count_le_size '\t' _)
  exact hoverflows.columns.trans (Nat.mul_le_mul_right _ hcount)

end Faults

section Total

/-- Every cut and every number of a run has a value, the columns of tabs aside. -/
structure RunsInBounds (o : Options) (s : Text) : Prop where
  lines : ∀ (t : Text) (earlier : List Text) (line : Text) (later : List Text),
    t.terminatedLines = earlier ++ line :: later →
    t.cut (Text.size earlier.flatten) (Text.size earlier.flatten + line.size) = .ok line
  /-- So are the tokens, as far as it is scanned, whether or not it can be read to its end. -/
  scan : ∀ ls rest tokens st, (unixLines s).rawLines = ls ++ rest →
    scanLines .start 1 ls = .ok (tokens, st) → InBounds (unixLines s) tokens st
  /-- No indentation is wider than eight columns for each byte. -/
  indents : ∀ line ∈ (unixLines s).rawLines,
    indentColumn 0 (line.takeWhile isSpacing) ≤ 8 * s.size
  indices : ∀ tokens, tokenize (unixLines s) = .ok tokens →
    (∀ b ∈ blocks tokens, b.anchor ≤ b.docstring ∧ b.docstring < tokens.length) ∧
      ∀ i ∈ droppedBlanks o (blocks tokens) (sites tokens), i < tokens.length
  /-- Tabs of a text go to multiples of a number that is not zero. -/
  tabs : ∀ t, (Text.expandTabs t).size ≤ Text.maxSize →
    Text.expandTabsBy Text.tabStop t = .ok (Text.expandTabs t)
  fields : ∀ (style : Markup.Style) (indent t : Text), indent.size ≤ Text.maxSize →
    t.size ≤ Text.maxSize → ∀ field ∈ Docstring.fieldsAt t (Markup.fieldSpans style t),
      indent.size + field.name.size +
        (Docstring.joinBody (Docstring.splitAtBreak field.segment).1).size < wordLimit
  /-- All other cuts, and the lengths of docstrings, pass their checks. -/
  checks : checkedFormat o s = (format o s).result

/-- Formatting has a value unless the tabs in front of some docstring overflow, and then that is the
fault.  A source that is not too large for its tab width is always formatted. -/
theorem format_total_iff (o : Options) (s : Text) (hs : s.size ≤ Text.maxSize) :
    RunsInBounds o s ∧
      ((∃ output, (format o s).result = .ok output) ↔ ¬ TabsOverflow o (unixLines s)) ∧
      (TabsOverflow o (unixLines s) → (format o s).result = .error .overflow) ∧
      (s.size * (o.tabWidth - 1) < wordLimit → ∃ output, (format o s).result = .ok output) := by
  have hvalue : (∃ output, (format o s).result = .ok output) ↔ ¬ TabsOverflow o (unixLines s) := by
    constructor
    · rintro ⟨output, houtput⟩ htabs
      have herror := result_format_eq_error.mpr ⟨rfl, htabs⟩
      rw [houtput] at herror
      cases herror
    · intro htabs
      cases hresult : (format o s).result with
      | error fault => exact absurd (result_format_eq_error.mp hresult).2 htabs
      | ok output => exact ⟨output, rfl⟩
  refine ⟨?_, hvalue, ?_, ?_⟩
  · constructor
    case lines => exact fun t earlier line later hlines => Text.cut_terminatedLines hlines
    case scan => exact fun ls rest tokens st hlines hscan => inBounds_of_scanLines hlines hscan
    case indents =>
      intro line hline
      exact (indentColumn_line_le hline).trans (Nat.mul_le_mul_left 8 (size_unixLines_le s))
    case indices =>
      intro tokens htokens
      exact ⟨fun b hb => index_of_mem_blocks htokens hb,
        fun i hi => index_of_mem_droppedBlanks htokens hi⟩
    case tabs => exact fun t ht => Docstring.expandTabsBy_tabStop ht
    case fields =>
      intro style indent t hindent ht field hfield
      exact Docstring.field_columns_lt hindent ht hfield
    case checks => exact checkedFormat_eq_result o hs
  · intro htabs
    exact result_format_eq_error.mpr ⟨rfl, htabs⟩
  · intro hsmall
    refine hvalue.mpr fun htabs => ?_
    have hlarge := htabs.le_size
    have hsize := Nat.mul_le_mul_right (o.tabWidth - 1) (size_unixLines_le s)
    omega

/-- Two tabs of the largest width are too many columns, although the options are accepted. -/
theorem format_overflows_on_two_tabs :
    let o : Options := { tabWidth := 18446744073709551615 }
    let s : Text := "def f():\n\t\t'''foo bar baz'''\n".toList
    o.validate = .ok () ∧ s.size ≤ Text.maxSize ∧ (format o s).result = .error .overflow ∧
      checkedFormat o s = .error .overflow ∧ TabsOverflow o (unixLines s) := by
  intro o s
  have hs : s.size ≤ Text.maxSize := by decide
  have hresult : (format o s).result = .error .overflow := by decide +kernel
  obtain ⟨hbounds, hvalue, -, -⟩ := format_total_iff o s hs
  refine ⟨by rfl, hs, hresult, hbounds.checks.trans hresult, ?_⟩
  by_contra htabs
  obtain ⟨output, houtput⟩ := hvalue.mpr htabs
  rw [hresult] at houtput
  cases houtput

end Total

end DocstringFormat.Source
