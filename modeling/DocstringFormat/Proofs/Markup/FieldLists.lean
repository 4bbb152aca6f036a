import DocstringFormat.Markup.Shape
import DocstringFormat.Proofs.Markup.Spans
import DocstringFormat.Proofs.Text.Margin

/-!
Field lists, as they are recognised and as their names are found.

Whether a text is a field list is asked of the lines that are left without the blanks at its end, and
any blanks may stand before a name; the names are looked for in the lines as they stand, behind
spaces and tabs.  Both come to one question about the lines of the text, `opensField`
(`isFieldList_eq_any`, `fieldSpans_ne_nil_iff`), since a field name goes on up to its colon and no
blank after that changes it (`fieldName?_dropWhile_append`).  So every text with a field name is a
field list, and the lines before the first name are those that are looked at for other lists
(`beforeFields_eq`).
-/

set_option autoImplicit false

namespace DocstringFormat.Text

variable {g l s : Text}

private theorem exists_dropTerminator_append (line : Text) :
    ∃ g, isBlank g = true ∧ line = dropTerminator line ++ g := by
  unfold dropTerminator
  split
  · exact ⟨[], rfl, (List.append_nil line).symm⟩
  · rename_i body hbody
    rw [before?_eq_some] at hbody
    split
    · exact ⟨['\n'], by decide, hbody⟩
    · rename_i shorter hshorter
      rw [before?_eq_some] at hshorter
      exact ⟨['\r', '\n'], by decide, by rw [hbody, hshorter]; simp⟩

private theorem lines_trimEnd_of_not_mem (hb : '\n' ∉ l) (hblank : isBlank l = false) :
    lines (trimEnd l) = [trimEnd l] := by
  refine lines_of_not_mem ?_ fun hmem => hb ((dropEndWhile_isPrefix _ _).subset hmem)
  intro hnil
  rw [← isBlank_trimEnd, hnil] at hblank
  cases hblank

private theorem exists_lines_trimEnd (h : isBlank s = false) :
    ∃ ls l rest, lines s = ls ++ l :: rest ∧ lines (trimEnd s) = ls ++ [trimEnd l] ∧
      ∀ k ∈ rest, isBlank k = true := by
  induction s using line_induction with
  | last b hb =>
    have hne : b ≠ [] := by
      rintro rfl
      cases h
    exact ⟨[], b, [], lines_of_not_mem hne hb, lines_trimEnd_of_not_mem hb h, by simp⟩
  | line b s hb ih =>
    obtain ⟨g, hg, hline⟩ := exists_dropTerminator_append (b ++ ['\n'])
    have hsplit : b ++ '\n' :: s = b ++ ['\n'] ++ s := by simp
    rw [lines_append_newline_eq hb]
    by_cases hs : isBlank s = true
    · -- The line feed and all after it go.
      have hb' : isBlank b = false := by
        rwa [hsplit, isBlank_append, isBlank_append, hs, show isBlank ['\n'] = true by decide,
          Bool.and_true, Bool.and_true] at h
      have htrim : trimEnd (dropTerminator (b ++ ['\n'])) = trimEnd b := by
        rw [← trimEnd_append_blank _ hg, ← hline, trimEnd_append_blank b (by decide)]
      refine ⟨[], _, lines s, rfl, ?_, ?_⟩
      · rw [hsplit, trimEnd_append_blank _ hs, trimEnd_append_blank b (by decide), htrim,
          lines_trimEnd_of_not_mem hb hb']
        rfl
      · rw [isBlank_eq_all_lines] at hs
        exact List.all_eq_true.mp hs
    · rw [Bool.not_eq_true] at hs
      obtain ⟨ls, l, rest, hlines, htrim, hrest⟩ := ih hs
      refine ⟨_ :: ls, l, rest, by rw [hlines]; rfl, ?_, hrest⟩
      rw [hsplit, trimEnd_append_of_not_blank _ hs, List.append_assoc, List.singleton_append,
        lines_append_newline_eq hb, htrim]
      rfl

private theorem any_lines_trimEnd {p : Text → Bool} (hblank : ∀ l, isBlank l = true → p l = false)
    (htrim : ∀ l, p (trimEnd l) = p l) (s : Text) : (lines (trimEnd s)).any p = (lines s).any p := by
  by_cases hs : isBlank s = true
  · have hlines := List.all_eq_true.mp (isBlank_eq_all_lines s ▸ hs)
    have hnone : (lines s).any p = false :=
      List.any_eq_false.mpr fun l hl => by simp [hblank l (hlines l hl)]
    rw [trimEnd_of_blank hs, hnone]
    rfl
  · obtain ⟨ls, l, rest, hlines, hshort, hrest⟩ := exists_lines_trimEnd (Bool.not_eq_true _ ▸ hs)
    have hnone : rest.any p = false :=
      List.any_eq_false.mpr fun k hk => by simp [hblank k (hrest k hk)]
    rw [hlines, hshort, List.any_append, List.any_append, List.any_cons, List.any_cons, htrim, hnone]
    rfl

private theorem mem_lines_trimEnd (hends : ∀ l ∈ lines s, trimEnd l = l) (hl : l ∈ lines s) :
    l ∈ lines (trimEnd s) ∨ l = [] := by
  by_cases hs : isBlank s = true
  · rw [isBlank_eq_all_lines] at hs
    right
    rw [← hends l hl, trimEnd_of_blank (List.all_eq_true.mp hs l hl)]
  · obtain ⟨ls, last, rest, hlines, hshort, hrest⟩ :=
      exists_lines_trimEnd (Bool.not_eq_true _ ▸ hs)
    rw [hlines] at hl
    rw [hshort]
    rcases List.mem_append.mp hl with hl | hl
    · exact Or.inl (List.mem_append_left _ hl)
    · rcases List.mem_cons.mp hl with rfl | hl
      · rw [hends l (by rw [hlines]; simp)]
        exact Or.inl (by simp)
      · right
        rw [← hends l (by rw [hlines]; simp [hl]), trimEnd_of_blank (hrest l hl)]

private theorem rawLines_flatten_of_append {before after : List Text} {line : Text}
    (h : rawLines s = before ++ line :: after) : rawLines before.flatten = before := by
  induction s using line_induction generalizing before with
  | last b hb =>
    cases before with
    | nil => rfl
    | cons first before =>
      have hlength := congrArg List.length h
      by_cases hne : b = []
      · simp [hne] at hlength
      · simp [rawLines_of_not_mem hne hb] at hlength
  | line b s hb ih =>
    rw [rawLines_append_newline hb] at h
    cases before with
    | nil => rfl
    | cons first before =>
      obtain ⟨rfl, hrest⟩ := List.cons.inj h
      rw [List.flatten_cons, List.append_assoc, List.singleton_append, rawLines_append_newline hb,
        ih hrest]

private theorem written_lines_reindent {indentation : Text} (hnewline : '\n' ∉ indentation)
    (s : Text) :
    ∀ l ∈ lines (reindent indentation s), Written l := by
  refine written_lines_closeLines ?_
  intro l hl
  obtain ⟨line, hline, rfl⟩ := List.mem_map.mp hl
  refine ⟨fun hmem => ?_, fun c hc => getLast?_trimEnd hc⟩
  rcases List.mem_append.mp ((dropEndWhile_isPrefix _ _).subset hmem) with hmem | hmem
  · exact hnewline hmem
  · exact newline_not_mem_lines hline hmem

end DocstringFormat.Text

namespace DocstringFormat.Markup

open Text (trimEnd)

variable {style : Style} {g line s : Text} {p : Char → Bool}

def isFieldMargin (c : Char) : Bool :=
  c == ' ' || c == '\t'

def opensField (style : Style) (p : Char → Bool) (line : Text) : Bool :=
  (style.fieldName? (line.dropWhile p)).isSome

section Names

private theorem not_mem_of_isBlank {c : Char} (hc : Character.isBlank c = false)
    (hg : Text.isBlank g = true) : c ∉ g := by
  intro hmem
  rw [List.all_eq_true.mp hg c hmem] at hc
  cases hc

private theorem closedRun?_cons (p : Char → Bool) (c : Char) (s : Text) :
    closedRun? p (c :: s) =
      if p c = true then (closedRun? p s).map (c :: ·) else if c = ':' then some [':'] else none := by
  unfold closedRun?
  rw [List.dropWhile_cons, List.takeWhile_cons]
  by_cases hc : p c = true
  · rw [if_pos hc, if_pos hc, if_pos hc]
    split
    · rfl
    · rfl
  · rw [if_neg hc, if_neg hc, if_neg hc]
    by_cases hcolon : c = ':'
    · subst hcolon
      rfl
    · rw [if_neg hcolon]
      split
      · rename_i rest hrest
        exact absurd (List.cons.inj hrest).1 hcolon
      · rfl

private theorem closedRun?_append (hg : ':' ∉ g) (s : Text) :
    closedRun? p (s ++ g) = closedRun? p s := by
  induction s with
  | nil =>
    cases hrun : closedRun? p g with
    | none => rw [List.nil_append, hrun]; rfl
    | some run =>
      obtain ⟨body, rest, rfl, rfl⟩ := closedRun?_eq_some hrun
      exact absurd (by simp) hg
  | cons c s ih => rw [List.cons_append, closedRun?_cons, closedRun?_cons, ih]

private theorem fieldName?_of_blank (style : Style) (hg : Text.isBlank g = true) :
    style.fieldName? g = none := by
  cases hname : style.fieldName? g with
  | none => rfl
  | some name =>
    obtain ⟨body, rest, rfl, rfl⟩ := fieldName?_eq_some hname
    exact absurd (by simp) (not_mem_of_isBlank (c := ':') (by decide) hg)

private theorem all_sphinxFields_solid :
    sphinxFields.all (fun field => field.all fun c => !Character.isBlank c) = true := by
  decide +kernel

private theorem any_isPrefixOf_append (hg : Text.isBlank g = true) (s : Text) :
    sphinxFields.any (fun field => field.isPrefixOf (s ++ g)) =
      sphinxFields.any (fun field => field.isPrefixOf s) := by
  cases g with
  | nil => rw [List.append_nil]
  | cons c g =>
    have hc : Character.isBlank c = true := List.all_eq_true.mp hg c List.mem_cons_self
    rw [Bool.eq_iff_iff, List.any_eq_true, List.any_eq_true]
    refine exists_congr fun field => and_congr_right fun hfield => ?_
    have hnot : c ∉ field := by
      intro hmem
      have hsolid := List.all_eq_true.mp (List.all_eq_true.mp all_sphinxFields_solid field hfield) c hmem
      rw [hc] at hsolid
      cases hsolid
    rw [List.isPrefixOf_iff_prefix, List.isPrefixOf_iff_prefix, Text.isPrefix_append_cons hnot]

private theorem fieldName?_append (style : Style) (hg : Text.isBlank g = true) (s : Text) :
    style.fieldName? (s ++ g) = style.fieldName? s := by
  have hcolon : ':' ∉ g := not_mem_of_isBlank (by decide) hg
  cases s with
  | nil => rw [List.nil_append, fieldName?_of_blank style hg, fieldName?_of_blank style rfl]
  | cons c s =>
    cases style with
    | numpy => rfl
    | google => rfl
    | sphinx =>
      by_cases hc : c = ':'
      · subst hc
        simp only [Style.fieldName?, List.cons_append, sphinxName?, any_isPrefixOf_append hg,
          closedRun?_append hcolon]
      · simp [Style.fieldName?, sphinxName?, hc]
    | epytext =>
      by_cases hc : c = '@'
      · subst hc
        simp only [Style.fieldName?, List.cons_append, epytextName?, closedRun?_append hcolon]
      · simp [Style.fieldName?, epytextName?, hc]

private theorem fieldName?_dropWhile_append (style : Style) (p : Char → Bool)
    (hg : Text.isBlank g = true)
    (s : Text) : style.fieldName? ((s ++ g).dropWhile p) = style.fieldName? (s.dropWhile p) := by
  rw [List.dropWhile_append]
  split
  · rename_i hempty
    have hrest : Text.isBlank (g.dropWhile p) = true :=
      List.all_eq_true.mpr fun c hc =>
        List.all_eq_true.mp hg c ((List.dropWhile_suffix p).subset hc)
    rw [List.isEmpty_iff.mp hempty, fieldName?_of_blank style hrest, fieldName?_of_blank style rfl]
  · exact fieldName?_append style hg _

private theorem opensField_append (style : Style) (p : Char → Bool) (hg : Text.isBlank g = true)
    (line : Text) : opensField style p (line ++ g) = opensField style p line := by
  rw [opensField, fieldName?_dropWhile_append style p hg, opensField]

private theorem opensField_dropTerminator (style : Style) (p : Char → Bool) (line : Text) :
    opensField style p line.dropTerminator = opensField style p line := by
  obtain ⟨g, hg, hline⟩ := Text.exists_dropTerminator_append line
  conv_rhs => rw [hline, opensField_append style p hg]

private theorem opensField_trimEnd (style : Style) (p : Char → Bool) (line : Text) :
    opensField style p (trimEnd line) = opensField style p line := by
  obtain ⟨g, hg, hline⟩ := Text.exists_trimEnd_append line
  conv_rhs => rw [hline, opensField_append style p hg]

private theorem opensField_of_blank (style : Style) (p : Char → Bool)
    (hline : Text.isBlank line = true) :
    opensField style p line = false := by
  have hempty := opensField_append style p hline []
  rw [List.nil_append] at hempty
  rw [hempty, opensField, List.dropWhile_nil, fieldName?_of_blank style rfl]
  rfl

end Names

section Margins

private theorem isBlank_of_isFieldMargin {c : Char} (hc : isFieldMargin c = true) :
    Character.isBlank c = true := by
  rw [isFieldMargin, Bool.or_eq_true, beq_iff_eq, beq_iff_eq] at hc
  rcases hc with rfl | rfl <;> decide

private theorem isBlank_fieldMargin (line : Text) : Text.isBlank (fieldMargin line) = true :=
  List.all_eq_true.mpr fun c hc =>
    isBlank_of_isFieldMargin (List.all_eq_true.mp List.all_takeWhile c hc)

private theorem fieldMargin_append_dropWhile (line : Text) :
    fieldMargin line ++ line.dropWhile isFieldMargin = line :=
  List.takeWhile_append_dropWhile

private theorem opensField_isBlank (h : opensField style isFieldMargin line = true) :
    opensField style Character.isBlank line = true := by
  obtain ⟨name, hname⟩ := Option.isSome_iff_exists.mp h
  obtain ⟨c, -, rest, -, hc, -, hrest, -, -⟩ := exists_closedRun hname
  have hsame : line.dropWhile Character.isBlank = line.dropWhile isFieldMargin := by
    conv_lhs => rw [← fieldMargin_append_dropWhile line]
    rw [List.dropWhile_append_of_pos (List.all_eq_true.mp (isBlank_fieldMargin line)), hrest,
      List.dropWhile_cons_of_neg (by simp [hc])]
  rw [opensField, hsame]
  exact h

private theorem opensField_isFieldMargin (hlead : ∀ c ∈ line.leadingBlanks, c = ' ' ∨ c = '\t') :
    opensField style isFieldMargin line = opensField style Character.isBlank line := by
  have hmargin : ∀ c ∈ line.leadingBlanks, isFieldMargin c = true := by
    intro c hc
    rcases hlead c hc with rfl | rfl <;> rfl
  have hsame : line.dropWhile isFieldMargin = line.trimStart := by
    conv_lhs => rw [← Text.leadingBlanks_append_trimStart line]
    rw [List.dropWhile_append_of_pos hmargin]
    cases hrest : line.trimStart with
    | nil => rfl
    | cons c rest =>
      refine List.dropWhile_cons_of_neg fun hc => ?_
      have hblank := isBlank_of_isFieldMargin hc
      rw [Text.trimStart_eq_cons hrest] at hblank
      cases hblank
  rw [opensField, hsame]
  rfl

end Margins

section Fields

variable {span : Span} {spans : List Span}

private theorem drop_fieldMargin (line : Text) :
    line.drop (fieldMargin line).length = line.dropWhile isFieldMargin := by
  have hlead : fieldMargin line <+: line := List.takeWhile_prefix _
  rw [← List.append_right_inj (fieldMargin line), fieldMargin_append_dropWhile]
  exact List.prefix_iff_eq_append.mp hlead

private theorem isSome_fieldSpan? (style : Style) (offset : Nat) (line : Text) :
    (fieldSpan? style offset line).isSome = opensField style isFieldMargin line := by
  rw [fieldSpan?, Option.isSome_map, drop_fieldMargin, opensField]

private theorem isFieldList_eq_any (style : Style) (s : Text) :
    isFieldList style s = s.lines.any (opensField style Character.isBlank) := by
  rw [← Text.any_lines_trimEnd (fun _ => opensField_of_blank style _) (opensField_trimEnd style _)]
  cases style with
  | sphinx => rfl
  | epytext => rfl
  | numpy => exact (List.any_eq_false.mpr fun _ _ => Bool.false_ne_true).symm
  | google => exact (List.any_eq_false.mpr fun _ _ => Bool.false_ne_true).symm

private theorem fieldSpansFrom_eq_cons {offset : Nat} {ls : List Text}
    (h : fieldSpansFrom style offset ls = span :: spans) :
    ∃ before line after, ls = before ++ line :: after ∧
      fieldSpan? style (offset + Text.size before.flatten) line = some span := by
  induction ls generalizing offset with
  | nil => cases h
  | cons line ls ih =>
    rw [fieldSpansFrom] at h
    split at h
    · obtain ⟨before, first, after, rfl, hspan⟩ := ih h
      refine ⟨line :: before, first, after, rfl, ?_⟩
      rwa [List.flatten_cons, Text.size_append, ← Nat.add_assoc]
    · rename_i found hfound
      obtain ⟨rfl, -⟩ := List.cons.inj h
      exact ⟨[], line, ls, rfl, hfound⟩

private theorem fieldSpansFrom_ne_nil {offset : Nat} {ls : List Text} (hline : line ∈ ls)
    (h : opensField style isFieldMargin line = true) : fieldSpansFrom style offset ls ≠ [] := by
  induction ls generalizing offset with
  | nil => cases hline
  | cons first ls ih =>
    rw [fieldSpansFrom]
    split
    · rename_i hnone
      rcases List.mem_cons.mp hline with rfl | hline
      · rw [← isSome_fieldSpan? style offset, hnone] at h
        cases h
      · exact ih hline
    · exact List.cons_ne_nil _ _

private theorem exists_first_field (h : fieldSpans style s = span :: spans) :
    ∃ before line after, s.rawLines = before ++ line :: after ∧
      opensField style isFieldMargin line = true ∧
      span.start = Text.size before.flatten + (fieldMargin line).size := by
  obtain ⟨before, line, after, hlines, hspan⟩ := fieldSpansFrom_eq_cons h
  refine ⟨before, line, after, hlines, ?_, ?_⟩
  · rw [← isSome_fieldSpan?, hspan]
    rfl
  · obtain ⟨name, -, rfl⟩ := Option.map_eq_some_iff.mp hspan
    rw [Nat.zero_add]

private theorem fieldSpans_ne_nil_iff (style : Style) (s : Text) :
    fieldSpans style s ≠ [] ↔ s.lines.any (opensField style isFieldMargin) = true := by
  rw [List.any_eq_true]
  constructor
  · intro h
    obtain ⟨span, spans, hspans⟩ := List.exists_cons_of_ne_nil h
    obtain ⟨before, line, after, hlines, hopens, -⟩ := exists_first_field hspans
    refine ⟨line.dropTerminator, List.mem_map_of_mem ?_, ?_⟩
    · rw [hlines]
      simp
    · rw [opensField_dropTerminator, hopens]
  · rintro ⟨line, hline, hopens⟩
    obtain ⟨raw, hraw, rfl⟩ := List.mem_map.mp hline
    rw [opensField_dropTerminator] at hopens
    exact fieldSpansFrom_ne_nil hraw hopens

private theorem isFieldList_of_fieldSpans (h : fieldSpans style s ≠ []) :
    isFieldList style s = true := by
  rw [fieldSpans_ne_nil_iff, List.any_eq_true] at h
  obtain ⟨line, hline, hopens⟩ := h
  rw [isFieldList_eq_any]
  exact List.any_eq_true.mpr ⟨line, hline, opensField_isBlank hopens⟩

private theorem isFieldList_iff
    (hlead : ∀ line ∈ s.lines, ∀ c ∈ line.leadingBlanks, c = ' ' ∨ c = '\t') :
    isFieldList style s = true ↔ fieldSpans style s ≠ [] := by
  rw [isFieldList_eq_any, fieldSpans_ne_nil_iff, List.any_eq_true, List.any_eq_true]
  refine exists_congr fun line => and_congr_right fun hline => ?_
  rw [opensField_isFieldMargin (hlead line hline)]

end Fields

section ListLines

variable {span : Span} {spans : List Span} {before after : List Text}

private theorem hasListLine_append_blank (hg : Text.isBlank g = true) (s : Text) :
    hasListLine (s ++ g) = hasListLine s := by
  rw [hasListLine, Text.trimEnd_append_blank s hg, hasListLine]

private theorem isListLike_eq_false (hends : ∀ l ∈ s.lines, trimEnd l = l)
    (h : hasListLine s = false) : ∀ l ∈ s.lines, (LineKind.ofLine l).isListLike = false := by
  intro l hl
  rcases Text.mem_lines_trimEnd hends hl with hl | rfl
  · exact Bool.not_eq_true _ ▸ List.any_eq_false.mp h l hl
  · decide

private theorem beforeFields_eq (h : fieldSpans style s = span :: spans)
    (hlines : s.rawLines = before ++ line :: after)
    (hstart : span.start = Text.size before.flatten + (fieldMargin line).size) :
    beforeFields style s = before.flatten ++ fieldMargin line := by
  have hs : s = before.flatten ++ fieldMargin line ++
      (line.dropWhile isFieldMargin ++ after.flatten) := by
    rw [List.append_assoc, ← List.append_assoc (fieldMargin line), fieldMargin_append_dropWhile,
      ← List.flatten_cons, ← List.flatten_append, ← hlines, Text.flatten_rawLines]
  rw [beforeFields, h]
  simp only [hstart]
  rw [← Text.size_append]
  conv_lhs => rw [hs]
  exact Text.takeBytes_size _ _

private theorem size_fieldMargin_lt (h : opensField style isFieldMargin line = true) :
    (fieldMargin line).size < line.dropTerminator.size := by
  obtain ⟨g, -, hline⟩ := Text.exists_dropTerminator_append line
  rw [← opensField_dropTerminator] at h
  set body := line.dropTerminator
  obtain ⟨name, hname⟩ := Option.isSome_iff_exists.mp h
  obtain ⟨c, -, rest, -, -, -, hrest, -, -⟩ := exists_closedRun hname
  have hbody : fieldMargin body ++ c :: rest = body := by
    rw [← hrest, fieldMargin_append_dropWhile]
  have hmargin : fieldMargin line = fieldMargin body := by
    rw [hline, fieldMargin, List.takeWhile_append, if_neg]
    · rfl
    · intro hlength
      have hlonger := congrArg List.length hbody
      rw [List.length_append, List.length_cons, fieldMargin] at hlonger
      omega
  have hsize := congrArg Text.size hbody
  have hpos := Text.size_pos (List.cons_ne_nil c rest)
  rw [Text.size_append] at hsize
  rw [hmargin]
  omega

private theorem mem_of_ends_before {lead tail : List Text} {field : Text}
    (hlines : before ++ line :: after = lead ++ field :: tail)
    (hopens : opensField style isFieldMargin field = true)
    (hend : Text.size before.flatten + line.dropTerminator.size ≤
      Text.size lead.flatten + (fieldMargin field).size) : line ∈ lead := by
  have hfield := size_fieldMargin_lt hopens
  rcases List.append_eq_append_iff.mp hlines with ⟨middle, hlead, hrest⟩ | ⟨middle, hbefore, hrest⟩
  · cases middle with
    | nil =>
      obtain ⟨rfl, -⟩ := List.cons.inj hrest
      rw [hlead, List.append_nil] at hend
      omega
    | cons first middle =>
      obtain ⟨rfl, -⟩ := List.cons.inj hrest
      rw [hlead]
      simp
  · -- The line does not stand before that of the name, so it ends after the start of the name.
    cases middle with
    | nil =>
      obtain ⟨rfl, -⟩ := List.cons.inj hrest
      rw [hbefore, List.append_nil] at hend
      omega
    | cons first middle =>
      obtain ⟨rfl, -⟩ := List.cons.inj hrest
      obtain ⟨g, -, hline⟩ := Text.exists_dropTerminator_append field
      have hsize := congrArg Text.size hline
      rw [Text.size_append] at hsize
      rw [hbefore, List.flatten_append, List.flatten_cons, Text.size_append, Text.size_append] at hend
      omega

private theorem isListLike_eq_false_of_before (hends : ∀ l ∈ s.lines, trimEnd l = l)
    (hlist : hasListLine (beforeFields style s) = false) (hspans : fieldSpans style s = span :: spans)
    (hlines : s.rawLines = before ++ line :: after)
    (hend : Text.size before.flatten + line.dropTerminator.size ≤ span.start) :
    (LineKind.ofLine line.dropTerminator).isListLike = false := by
  obtain ⟨lead, field, tail, hfield, hopens, hstart⟩ := exists_first_field hspans
  rw [hstart] at hend
  have hmem := mem_of_ends_before (hlines.symm.trans hfield) hopens hend
  rw [beforeFields_eq hspans hfield hstart, hasListLine_append_blank (isBlank_fieldMargin field)]
    at hlist
  have hlead : Text.lines lead.flatten = lead.map Text.dropTerminator := by
    rw [Text.lines, Text.rawLines_flatten_of_append hfield]
  refine isListLike_eq_false ?_ hlist _ ?_
  · intro l hl
    rw [hlead] at hl
    refine hends l ?_
    rw [Text.lines, hfield, List.map_append]
    exact List.mem_append_left _ hl
  · rw [hlead]
    exact List.mem_map_of_mem hmem

private theorem isListLike_eq_false_of_isList {nonStrict : Bool}
    (hends : ∀ l ∈ s.lines, trimEnd l = l)
    (h : isList s nonStrict style = false) (hspans : fieldSpans style s = []) :
    ∀ l ∈ s.lines, (LineKind.ofLine l).isListLike = false := by
  refine isListLike_eq_false hends ?_
  rw [isList, Bool.or_eq_false_iff] at h
  have hlist := h.2
  split at hlist
  · rwa [beforeFields, hspans] at hlist
  · exact (Bool.or_eq_false_iff.mp hlist).2

private theorem hasListLine_beforeFields {nonStrict : Bool} (h : isList s nonStrict style = false)
    (hspans : fieldSpans style s ≠ []) : hasListLine (beforeFields style s) = false := by
  rw [isList, Bool.or_eq_false_iff, if_pos (isFieldList_of_fieldSpans hspans)] at h
  exact h.2

end ListLines

section Agreement

/-- Field lists are recognised where field names are found: a text with a field name is a field list,
and if only spaces and tabs stand before its lines, a field list has a field name.  So a text that is
no list and has no blanks at the end of its lines has no line of the form of a list that ends before
its first field name, and none at all if it has no field names.  Indenting a text anew leaves no such
blanks. -/
theorem fieldSpans_match_isFieldList (style : Style) (s : Text) :
    (fieldSpans style s ≠ [] → isFieldList style s = true) ∧
    ((∀ line ∈ s.lines, ∀ c ∈ line.leadingBlanks, c = ' ' ∨ c = '\t') →
      (isFieldList style s = true ↔ fieldSpans style s ≠ [])) ∧
    ((∀ line ∈ s.lines, ∀ c, line.getLast? = some c → Character.isBlank c = false) →
      ∀ nonStrict, isList s nonStrict style = false →
        (∀ span spans, fieldSpans style s = span :: spans →
          ∀ before line after, s.rawLines = before ++ line :: after →
            Text.size before.flatten + line.dropTerminator.size ≤ span.start →
            (LineKind.ofLine line.dropTerminator).isListLike = false) ∧
        (fieldSpans style s = [] → ∀ line ∈ s.lines, (LineKind.ofLine line).isListLike = false)) ∧
    (∀ indentation, '\n' ∉ indentation → ∀ line ∈ (Text.reindent indentation s).lines,
      ∀ c, line.getLast? = some c → Character.isBlank c = false) := by
  refine ⟨isFieldList_of_fieldSpans, isFieldList_iff, ?_, ?_⟩
  · intro hlast nonStrict hlist
    have hends : ∀ l ∈ s.lines, trimEnd l = l := fun l hl => Text.trimEnd_eq_self (hlast l hl)
    constructor
    · intro span spans hspans before line after hlines hend
      have hbefore := hasListLine_beforeFields hlist (by rw [hspans]; exact List.cons_ne_nil _ _)
      exact isListLike_eq_false_of_before hends hbefore hspans hlines hend
    · exact isListLike_eq_false_of_isList hends hlist
  · intro indentation hnewline line hline
    exact (Text.written_lines_reindent hnewline s line hline).last

/-- An item after the field does not make the text a list, and the tab before the field does not hide
its name.  A carriage return that belongs to a terminator is no blank at the end of a line. -/
theorem fieldSpans_match_isFieldList_of_item :
    (isFieldList .sphinx "Sums up.\n\t:param x: it\n- kept\n".toList = true ∧
      (LineKind.ofLine "Sums up.".toList).isListLike = false ∧
      (LineKind.ofLine "- kept".toList).isListLike = true) ∧
    isFieldList .epytext "Sums up.\r\n".toList = false ∧
    ∀ line ∈ Text.lines "Sums up.\r\n".toList, (LineKind.ofLine line).isListLike = false := by
  obtain ⟨hfound, -, hlists, -⟩ :=
    fieldSpans_match_isFieldList .sphinx "Sums up.\n\t:param x: it\n- kept\n".toList
  obtain ⟨-, hsame, hnone, -⟩ := fieldSpans_match_isFieldList .epytext "Sums up.\r\n".toList
  have hspans : fieldSpans .sphinx "Sums up.\n\t:param x: it\n- kept\n".toList = [⟨10, 19⟩] := by
    decide +kernel
  have hends : (Text.lines "Sums up.\n\t:param x: it\n- kept\n".toList).all
      (fun line => line.getLast?.all (!Character.isBlank ·)) = true := by decide +kernel
  have hlines : Text.lines "Sums up.\r\n".toList = ["Sums up.".toList] := by decide +kernel
  refine ⟨⟨hfound (by rw [hspans]; decide), ?_, by decide +kernel⟩, ?_, ?_⟩
  · refine (hlists ?_ true (by decide +kernel)).1 ⟨10, 19⟩ [] hspans []
      "Sums up.\n".toList ["\t:param x: it\n".toList, "- kept\n".toList] (by decide +kernel)
      (by decide +kernel)
    intro line hline c hc
    simpa [hc] using List.all_eq_true.mp hends line hline
  · rw [hlines] at hsame
    refine Bool.eq_false_iff.mpr (mt (hsame ?_).mp ?_)
    · intro line hline c hc
      rw [List.mem_singleton.mp hline, show Text.leadingBlanks "Sums up.".toList = [] by decide] at hc
      cases hc
    · exact not_not_intro (by decide +kernel)
  · refine (hnone ?_ true (by decide +kernel)).2 (by decide +kernel)
    intro line hline c hc
    rw [hlines] at hline
    rw [List.mem_singleton.mp hline, show "Sums up.".toList.getLast? = some '.' by decide,
      Option.some_inj] at hc
    rw [← hc]
    decide

end Agreement

end DocstringFormat.Markup
