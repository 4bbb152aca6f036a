import DocstringFormat.Proofs.Docstring.LineBreaks
import DocstringFormat.Proofs.Docstring.Paragraphs
import DocstringFormat.Proofs.Text.TrailingBlanks

/-!
Blanks at the ends of the lines of a formatted literal.

Summaries, filled or indented paragraphs, links and fields are all written in lines that end in no
blank, and each line stands behind the indentation or, where a field goes on, behind the continuation
indentation.  So blanks at the ends of lines come from two places only: the space after the opening
quotes, where a lone summary goes on the next line, and line feeds inside the indentation
(`format_clean_iff`).
-/

set_option autoImplicit false

namespace DocstringFormat.Docstring

open Text (words Trimmed Clean CleanBut Ragged Inked)

/-- Whether a space and then a line feed follow the opening quotes of rewritten contents: a space is
asked for, and a summary without a description gets lines of its own. -/
def OpensWithBlank (o : Options) (contents : Text) : Prop :=
  o.preSummarySpace = true ∧ o.preSummaryNewline = false ∧ o.makeSummaryMultiLine = true ∧
    contents ≠ [] ∧ (split o.abbreviations contents).2 = []

section Parts

variable {s : Text}

private theorem exists_last_link {link : Markup.Link} (h : link ∈ Markup.links s) :
    ∃ c, (link.span.of s).getLast? = some c ∧ Character.isBlank c = false := by
  obtain ⟨a, hit, b, rfl, -, hafter, hspan⟩ := Markup.exists_of_mem_links h
  obtain ⟨⟨u, c, hc, hcut⟩, -⟩ := Markup.endsAtBlank_of_afterLink? hafter
  have hhit : hit = u ++ [c] := List.append_cancel_right (by simpa using hcut)
  rw [Markup.Span.of, hspan, Text.extract_size, hhit]
  exact ⟨c, List.getLast?_concat, hc⟩

private theorem inked_link {link : Markup.Link} (h : link ∈ Markup.links s) :
    Inked (Text.join [' '] ((link.span.of s).lines.map Text.trim)) where
  newline := newline_not_mem_join_trim _
  last := by
    obtain ⟨ls, l, hlines, hl⟩ := Text.exists_lines_concat (exists_last_link h)
    have htrim := Text.trimmed_trim (Text.words_ne_nil_of_not_blank hl.isBlank)
    have hinked := htrim.inked fun hmem => hl.newline ((Text.trim_isInfix l).subset hmem)
    obtain ⟨u, hu⟩ := Text.exists_join_concat [' '] (ls.map Text.trim) l.trim
    rw [hlines, List.map_append, List.map_singleton, hu, List.getLast?_append_of_ne_nil _ htrim.ne_nil]
    exact hinked.last

private theorem inked_fieldName {style : Markup.Style} {span : Markup.Span}
    (h : span ∈ Markup.fieldSpans style s) : Inked (span.of s) := by
  obtain ⟨t, ht⟩ := Markup.exists_name_of_mem_fieldSpans h
  refine ⟨Markup.newline_not_mem_fieldName? ht, ':', ?_, by decide⟩
  obtain ⟨body, rest, hname, -⟩ := Markup.fieldName?_eq_some ht
  rw [hname, List.getLast?_concat]

private theorem inked_append_joinBody {name : Text} (hname : Inked name) (p : Text) :
    Inked (name ++ joinBody p) := by
  unfold joinBody
  split
  · simpa using hname
  · rename_i c rest hunwrap
    have hwords : words p ≠ [] := by
      intro hnil
      rw [Text.unwrap, hnil] at hunwrap
      cases hunwrap
    have hinked := Text.inked_unwrap hwords
    rw [hunwrap] at hinked
    split
    · exact hinked.prepend hname.newline
    · rw [← List.singleton_append, ← List.append_assoc]
      exact hinked.prepend (by simp [hname.newline])

end Parts

section Layouts

variable {leads : List Text} {indent : Text} (hindent : indent ∈ leads)
include hindent

private theorem cleanBut_of_mem_reindentLines (p : Text) :
    ∀ l ∈ reindentLines indent p, CleanBut leads ('\n' :: l) := by
  intro l hl
  obtain ⟨line, hline, rfl⟩ := List.mem_map.mp hl
  split
  · exact Text.cleanBut_newline
  · rename_i hblank
    have htrim := Text.trimmed_trim (Text.words_ne_nil_of_not_blank (Bool.not_eq_true _ ▸ hblank))
    refine Inked.behind_lead (htrim.inked fun hmem => ?_) hindent
    exact Text.newline_not_mem_lines hline ((Text.trim_isInfix line).subset hmem)

private theorem cleanBut_of_mem_wrapField (hdeeper : continuationIndent indent ∈ leads)
    (name body : Text)
    (columns : Nat) : ∀ l ∈ wrapField name body indent columns, CleanBut leads ('\n' :: l) := by
  unfold wrapField
  dsimp only
  split
  · simp
  · rename_i first rest hlines
    have hinked : ∀ line ∈ first :: rest, Inked line.unwrap := by
      intro line hline
      rw [← hlines] at hline
      obtain ⟨lead, t, rfl, -, ht⟩ := Text.exists_tight_of_mem_fill hline
      exact Text.inked_unwrap (Text.words_ne_nil_of_not_blank (isBlank_append_tight ht lead))
    intro l hl
    rcases List.mem_cons.mp hl with rfl | hl
    · exact (hinked first (by simp)).behind_lead hindent
    · obtain ⟨line, hline, rfl⟩ := List.mem_map.mp hl
      exact (hinked line (List.mem_cons_of_mem first hline)).behind_lead hdeeper

private theorem cleanBut_opening (o : Options) {opening first : Text}
    (hopening : opening ∈ canonicalOpenings)
    (hfirst : CleanBut leads first) (htrimmed : Trimmed first) :
    CleanBut leads
      (openingQuotes o opening ++ (if o.preSummaryNewline then '\n' :: indent else []) ++ first) := by
  have hinked := Text.inked_of_solid (canonical_ne_nil hopening) (canonical_solid hopening)
  have hhead : first.head? ≠ some '\n' := fun h => absurd (htrimmed.head _ h) (by decide)
  split
  · rename_i hpre
    have hquotes : openingQuotes o opening = opening := by simp [openingQuotes, hpre]
    rw [hquotes, List.append_assoc]
    exact hinked.cleanBut.append (hfirst.behind_lead htrimmed.ne_nil hhead hindent)
  · have hnewline : '\n' ∉ openingQuotes o opening := by
      unfold openingQuotes
      split
      · simp [hinked.newline]
      · exact hinked.newline
    rw [List.append_nil]
    exact hfirst.on_line htrimmed.ne_nil hhead hnewline

private theorem cleanBut_close : CleanBut leads ('\n' :: (indent ++ tripleDouble)) :=
  (Text.inked_of_solid (by decide) tripleDouble_solid).behind_lead hindent

variable (hleads : ∀ lead ∈ leads, Text.isBlank lead = true)
include hleads

private theorem lineProperty_cleanBut (hdeeper : continuationIndent indent ∈ leads) (s : Text)
    (columns : Nat)
    (style : Markup.Style) :
    LineProperty s indent columns style fun l => CleanBut leads ('\n' :: l) := by
  constructor
  case empty => exact Text.cleanBut_newline
  case filled =>
    intro p _ l hl
    obtain ⟨t, rfl, ht⟩ := exists_tight_of_mem_fillParagraph hl
    exact ht.inked.behind_lead hindent
  case closing => exact fun p _ => cleanBut_of_mem_reindentLines hindent p
  case link => exact fun link hlink => (inked_link hlink).behind_lead hindent
  case quoted =>
    intro link hlink
    have hstart : Text.trimStart (linkLine indent (link.span.of s)) =
        Text.trimStart (Text.join [' '] ((link.span.of s).lines.map Text.trim)) :=
      List.dropWhile_append_of_pos (List.all_eq_true.mp (hleads indent hindent))
    have hinked : Inked ('"' :: Text.trimStart (linkLine indent (link.span.of s))) := by
      rw [hstart]
      exact (inked_link hlink).trimStart.prepend (u := ['"']) (by decide)
    rw [List.append_assoc]
    exact hinked.behind_lead hindent
  case stripped => exact fun line hline => hline.newline_trimEnd hleads
  case name =>
    intro span hspan
    have hname := (inked_fieldName hspan).behind_lead hindent
    exact hname.append Text.cleanBut_newline
  case field =>
    intro span hspan p _
    rw [List.append_assoc]
    exact (inked_append_joinBody (inked_fieldName hspan) p).behind_lead hindent
  case wrapped =>
    exact fun span _ p _ => cleanBut_of_mem_wrapField hindent hdeeper (span.of s) (joinBody p) columns

private theorem cleanBut_reindent (s : Text) :
    CleanBut leads ('\n' :: Text.trimEnd (Text.reindent indent s)) := by
  have hline : ∀ line : Text, '\n' ∉ line →
      CleanBut leads ('\n' :: Text.trimEnd (indent ++ line)) := by
    intro line hnewline
    by_cases hblank : Text.isBlank line = true
    · rw [Text.trimEnd_append_blank _ hblank, Text.trimEnd_of_blank (hleads indent hindent)]
      exact Text.cleanBut_newline
    · have hblank : Text.isBlank line = false := by simpa using hblank
      rw [Text.trimEnd_append_of_not_blank _ hblank]
      exact (Text.inked_trimEnd hnewline hblank).behind_lead hindent
  simp only [Text.reindent]
  rw [Text.trimEnd_append_blank _ (by decide), Text.trimEnd_eq_self fun c hc => Text.getLast?_trimEnd hc]
  refine CleanBut.newline_trimEnd hleads (g := []) ?_
  rw [List.append_nil]
  refine Text.cleanBut_unlines fun l hl => ?_
  obtain ⟨line, hmem, rfl⟩ := List.mem_map.mp hl
  exact hline line (Text.newline_not_mem_lines hmem)

private theorem cleanBut_wrapDescription (hdeeper : continuationIndent indent ∈ leads)
    (o : DescriptionOptions)
    {s : Text} (hs : Text.isBlank s = false) (hexample : ∀ w ∈ words s, ¬ ['>', '>', '>'] <:+: w) :
    CleanBut leads ('\n' :: wrapDescription o s indent) := by
  have hind := hleads indent hindent
  rcases wrapDescription_cases o s indent with ⟨hincludes, -⟩ | ⟨t, ht, heq | heq⟩
  · -- Three prompt signs in a row stand in one word, and dropping blank lines keeps the words.
    have hsolid : Text.Solid ['>', '>', '>'] := by
      intro c hc
      obtain rfl : c = '>' := by simpa using hc
      decide
    obtain ⟨w, hw, hin⟩ := exists_word_of_isInfix hsolid (by simp) ((includes_iff _ _).mp hincludes)
    rw [Text.words_dropLeadingBlankLines] at hw
    exact absurd hin (hexample w hw)
  · rw [heq, ht]
    exact cleanBut_reindent hindent hleads _
  · have hsqueeze := squeeze_wrapDescription hind o s
    rw [heq, Text.squeeze_append, Text.squeeze_of_blank hind, List.nil_append] at hsqueeze
    have hlines := Text.cleanBut_unlines
      (lineProperty_cleanBut hindent hleads hdeeper t o.columns o.style).of_mem_descriptionLines
    have htrim := CleanBut.trim hleads hlines
    rw [← List.singleton_append, Text.trim_blank_append (by decide)] at htrim
    rw [heq]
    refine htrim.behind_lead ?_ ?_ hindent
    · -- Were nothing laid out, the indentation would stand on a line of its own.
      intro hnil
      rw [hnil] at hsqueeze
      rw [Text.squeeze_eq_nil_iff.mp hsqueeze.symm] at hs
      cases hs
    · exact fun hhead => absurd (Text.head?_trim hhead) (by decide)

private theorem cleanBut_wrapSummary {initial : Text} (hi : Text.isBlank initial = true) (s : Text)
    {columns : Nat} (hcolumns : columns ≠ 0) :
    CleanBut leads (wrapSummary s initial indent columns) := by
  rw [wrapSummary, if_neg hcolumns]
  rcases Text.exists_fill_eq s.unwrap columns initial indent with hnil | ⟨t, ts, heq, ht, hts⟩
  · rw [hnil]
    exact Text.cleanBut_nil
  · rw [heq, Text.unlines_cons_append, Text.trim_blank_append hi]
    refine CleanBut.trim hleads (Text.cleanBut_unlines_cons ht.inked.cleanBut fun l hl => ?_)
    obtain ⟨u, hu, rfl⟩ := List.mem_map.mp hl
    exact (hts u hu).inked.behind_lead hindent

variable {o : Options} {opening summary : Text} {n : Nat} (hopening : opening ∈ canonicalOpenings)
  (hsummary : Trimmed summary) (hcolumns : o.wrapSummaries - n ≠ 0)
include hopening hsummary hcolumns

private theorem cleanBut_layoutWithDescription (hdeeper : continuationIndent indent ∈ leads)
    {description : Text} (hdescription : Text.isBlank description = false)
    (hexample : ∀ w ∈ words description, ¬ ['>', '>', '>'] <:+: w) :
    CleanBut leads
      (layoutWithDescription o indent (openingQuotes o opening) summary description n) := by
  have hind := hleads indent hindent
  have hinitial := isBlank_summaryLead hind o.preSummaryNewline
  have hfirst := cleanBut_opening hindent o hopening
    (cleanBut_wrapSummary hindent hleads hinitial summary hcolumns)
    (trimmed_wrapSummary hinitial hind hsummary _)
  have hbody := cleanBut_wrapDescription hindent hleads hdeeper (descriptionOptions o n) hdescription
    hexample
  have hafter : CleanBut leads (if o.postDescriptionBlank then ['\n'] else []) := by
    split
    · exact Text.cleanBut_newline
    · exact Text.cleanBut_nil
  have h := ((hfirst.append Text.cleanBut_newline).append hbody).append
    (hafter.append (cleanBut_close hindent))
  simpa only [layoutWithDescription, List.append_assoc, List.cons_append, List.nil_append] using h

private theorem cleanBut_layoutSummary
    (hopens : o.makeSummaryMultiLine = true → openingQuotes o opening = opening) :
    CleanBut leads (layoutSummary o indent (openingQuotes o opening) summary n) := by
  have hind := hleads indent hindent
  have hclose := cleanBut_close hindent
  simp only [layoutSummary]
  split
  · rename_i hmulti
    have hinked := Text.inked_of_solid (canonical_ne_nil hopening) (canonical_solid hopening)
    have hfirst := cleanBut_wrapSummary hindent hleads hind summary hcolumns
    have htrimmed := trimmed_wrapSummary hind hind hsummary (o.wrapSummaries - n)
    have hhead := hfirst.behind_lead htrimmed.ne_nil
      (fun h => absurd (htrimmed.head _ h) (by decide)) hindent
    rw [hopens hmulti]
    simpa only [List.append_assoc, List.cons_append, List.nil_append]
      using (hinked.cleanBut.append hhead).append hclose
  · have hline := cleanBut_wrapSummary hindent hleads hind
      (openingQuotes o opening ++ summary ++ tripleDouble) hcolumns
    split
    · -- The text before the closing quotes ends as the summary does.
      obtain ⟨body, hbody, -⟩ := exists_wrapSummary_eq hind hind (openingQuotes o opening ++ summary)
        (o.wrapSummaries - n)
      have hwords := words_wrapSummary hind hind (openingQuotes o opening ++ summary ++ tripleDouble)
        (o.wrapSummaries - n)
      have hend : ∃ c, (openingQuotes o opening ++ summary).getLast? = some c ∧
          Character.isBlank c = false := by
        obtain ⟨u, c, rfl⟩ := (List.eq_nil_or_concat' summary).resolve_left hsummary.ne_nil
        rw [← List.append_assoc, List.getLast?_concat]
        exact ⟨c, rfl, hsummary.last c List.getLast?_concat⟩
      rw [hbody] at hwords hline
      obtain ⟨c, hc, hsolid⟩ :=
        Text.exists_last_of_words tripleDouble_solid (by decide) hwords hend
      have hkept := hline.of_append_left hleads fun d hd => by
        rw [hc, Option.some_inj] at hd
        rw [← hd]
        exact hsolid
      have hbefore : Text.before? tripleDouble (body ++ tripleDouble) = some body :=
        Text.before?_eq_some.mpr rfl
      rw [hbody, hbefore, Option.getD_some]
      simpa only [List.append_assoc, List.cons_append, List.nil_append] using hkept.append hclose
    · exact hline

end Layouts

section Literals

variable {o : Options} {indent opening contents : Text} {n : Nat}

private theorem isBlank_split_snd {abbreviations : List Text}
    (h : (split abbreviations contents).2 ≠ []) :
    Text.isBlank (split abbreviations contents).2 = false := by
  unfold split at h ⊢
  split
  · rename_i summary description hlines
    rw [hlines] at h
    rw [Text.isBlank_trimEnd, Bool.eq_false_iff]
    exact fun hblank => h (Text.trimEnd_of_blank hblank)
  · rename_i hlines
    rw [hlines] at h
    dsimp only at h ⊢
    split
    · rename_i hboth
      simp only [Bool.and_eq_true, Bool.not_eq_true'] at hboth
      rw [Text.isBlank_append, Text.isBlank_congr_words (Text.words_trim _), hboth.2, Bool.and_false]
    · rename_i hneither
      rw [if_neg hneither] at h
      exact absurd rfl h

private theorem cleanBut_rewritten {leads : List Text}
    (hleads : ∀ lead ∈ leads, Text.isBlank lead = true)
    (hindent : indent ∈ leads) (hdeeper : continuationIndent indent ∈ leads)
    (hopening : opening ∈ canonicalOpenings) (hcontents : Trimmed contents)
    (hcolumns : o.wrapSummaries - n ≠ 0)
    (hexample : Text.includes ['>', '>', '>'] contents = false) (hopens : ¬ OpensWithBlank o contents) :
    CleanBut leads (rewritten o indent opening contents n) := by
  have htrimmed : Trimmed (split o.abbreviations contents).1 := trimmed_split hcontents
  have hsummary := trimmed_normalizeSummary o.nonCap htrimmed
  simp only [rewritten]
  split
  · rename_i hempty
    refine cleanBut_layoutSummary hindent hleads hopening hsummary hcolumns fun hmulti => ?_
    unfold openingQuotes
    split
    · rename_i hspace
      simp only [Bool.and_eq_true, Bool.not_eq_true'] at hspace
      exact absurd ⟨hspace.1, hspace.2, hmulti, hcontents.ne_nil, List.isEmpty_iff.mp hempty⟩ hopens
    · rfl
  · rename_i hempty
    refine cleanBut_layoutWithDescription hindent hleads hopening hsummary hcolumns hdeeper
      (isBlank_split_snd fun hnil => hempty (List.isEmpty_iff.mpr hnil)) fun w hw hin => ?_
    have hmem : w ∈ words contents := by
      rw [words_split o.abbreviations contents]
      exact List.mem_append_right _ hw
    rw [(includes_iff _ _).mpr (hin.trans (Text.mem_words hmem).2.2)] at hexample
    cases hexample

private theorem not_clean_rewritten (hopens : OpensWithBlank o contents) :
    ¬ Clean (rewritten o indent opening contents n) := by
  obtain ⟨hspace, hnewline, hmulti, -, hempty⟩ := hopens
  have hlayout : rewritten o indent opening contents n = opening ++ ' ' :: '\n' ::
      (indent ++ wrapSummary (normalizeSummary o.nonCap (split o.abbreviations contents).1) indent
        indent (o.wrapSummaries - n) ++ '\n' :: (indent ++ tripleDouble)) := by
    simp [rewritten, hempty, layoutSummary, hmulti, openingQuotes, hspace, hnewline]
  exact fun hclean => Text.clean_iff.mp hclean _ _ _ hlayout ⟨by decide, by decide, by simp⟩

private theorem isBlank_of_mem_leads (hindent : Text.isBlank indent = true) :
    ∀ lead ∈ [indent, continuationIndent indent], Text.isBlank lead = true := by
  simp [hindent, isBlank_continuationIndent hindent]

private theorem clean_iff_of_cleanBut {s : Text} (hindent : Text.isBlank indent = true)
    (hopens : ¬ OpensWithBlank o contents) (hs : CleanBut [indent, continuationIndent indent] s) :
    Clean s ↔ ¬ OpensWithBlank o contents ∧
      ∀ lead ∈ [indent, continuationIndent indent], Ragged lead → ¬ '\n' :: lead <:+: s := by
  rw [and_iff_right hopens]
  exact hs.clean_iff (isBlank_of_mem_leads hindent)

private theorem clean_rewritten_iff (hindent : Text.isBlank indent = true)
    (hopening : opening ∈ canonicalOpenings) (hcontents : Trimmed contents)
    (hcolumns : o.wrapSummaries - n ≠ 0)
    (hexample : Text.includes ['>', '>', '>'] contents = false) :
    Clean (rewritten o indent opening contents n) ↔ ¬ OpensWithBlank o contents ∧
      ∀ lead ∈ [indent, continuationIndent indent],
        Ragged lead → ¬ '\n' :: lead <:+: rewritten o indent opening contents n := by
  by_cases hopens : OpensWithBlank o contents
  · exact iff_of_false (not_clean_rewritten hopens) fun h => h.1 hopens
  · refine clean_iff_of_cleanBut hindent hopens ?_
    exact cleanBut_rewritten (isBlank_of_mem_leads hindent) (by simp) (by simp) hopening hcontents
      hcolumns hexample hopens

private theorem not_ragged_of_not_mem {lead : Text} (h : '\n' ∉ lead) : ¬ Ragged lead := by
  rintro ⟨c, -, hin⟩
  exact h (hin.subset (by simp))

private theorem newline_not_mem_continuationIndent (h : '\n' ∉ indent) :
    '\n' ∉ continuationIndent indent := by
  unfold continuationIndent
  split
  · simp [h]
  · simp [h]

/-- No line of a literal that formatting changes ends in a blank, unless a space was asked for after
the opening quotes of a summary that gets lines of its own, or the indentation has line feeds and
blanks before them, and is written after a line feed. -/
theorem format_clean_iff {literal output : Text} (hindent : Text.isBlank indent = true)
    (hformat : (format o indent literal).result = .ok output) (hchanged : output ≠ literal)
    (hstrip : strip literal = .ok ⟨opening, contents⟩)
    (hexample : Text.includes ['>', '>', '>'] contents = false)
    (hcolumns : indent.count '\t' * (o.tabWidth - 1) < o.wrapSummaries) :
    (Clean output ↔ ¬ OpensWithBlank o contents ∧
      ∀ lead ∈ [indent, continuationIndent indent], Ragged lead → ¬ '\n' :: lead <:+: output) ∧
    ('\n' ∉ indent → (Clean output ↔ ¬ OpensWithBlank o contents)) := by
  have hiff : Clean output ↔ ¬ OpensWithBlank o contents ∧
      ∀ lead ∈ [indent, continuationIndent indent], Ragged lead → ¬ '\n' :: lead <:+: output := by
    rcases format_cases hformat with rfl | ⟨opening', contents', hstrip', hcases⟩
    · exact absurd rfl hchanged
    · obtain ⟨rfl, rfl⟩ : opening' = opening ∧ contents' = contents := by
        simpa using hstrip'.symm.trans hstrip
      obtain ⟨q, hq, inner, -, rfl, hinner⟩ := strip_eq_ok hstrip
      have hopening := canonical_mem hq
      rcases hcases with ⟨hnil, rfl⟩ | ⟨hne, -, n, hn, rfl⟩
      · have hsolid := Text.solid_append.mpr ⟨canonical_solid hopening, tripleDouble_solid⟩
        have hinked := Text.inked_of_solid (by simp [tripleDouble]) hsolid
        exact clean_iff_of_cleanBut hindent (fun h => h.2.2.2.1 hnil) hinked.cleanBut
      · have hcontents : Trimmed contents' := by
          rw [hinner] at hne ⊢
          exact ⟨hne, fun c hc => Text.head?_trim hc, fun c hc => Text.getLast?_trimEnd hc⟩
        have hwidth : o.wrapSummaries - n ≠ 0 := by
          simp only [tabCompensation] at hn
          split at hn
          · cases hn
            omega
          · cases hn
        exact clean_rewritten_iff hindent hopening hcontents hwidth hexample
  refine ⟨hiff, fun hnewline => ?_⟩
  rw [hiff, and_iff_left]
  intro lead hlead hragged
  have hmem : '\n' ∉ lead := by
    rcases List.mem_pair.mp hlead with rfl | rfl
    · exact hnewline
    · exact newline_not_mem_continuationIndent hnewline
  exact absurd hragged (not_ragged_of_not_mem hmem)

theorem space_before_line_feed :
    let o : Options :=
      { wrapDescriptions := 17, preSummarySpace := true, makeSummaryMultiLine := true }
    let indent : Text := [' ', ' ', ' ', ' ']
    let lone := "'''foo bar baz'''".toList
    let loose := "\"\"\" \n    Foo bar baz.\n    \"\"\"".toList
    let described := "'''foo \n\n:param x: one two\n'''".toList
    let clean := "\"\"\" Foo.\n\n    :param x: one\n        two\n    \"\"\"".toList
    ((format o indent lone).result = .ok loose ∧ loose ≠ lone ∧ ¬ Clean loose) ∧
      (format o indent described).result = .ok clean ∧ clean ≠ described ∧ Clean clean := by
  intro o indent lone loose described clean
  have hnewline : '\n' ∉ indent := by decide
  constructor
  · have hformat : (format o indent lone).result = .ok loose := by decide +kernel
    have hchanged : loose ≠ lone := by decide
    have hstrip : strip lone = .ok ⟨tripleDouble, "foo bar baz".toList⟩ := by rfl
    have hopens : OpensWithBlank o "foo bar baz".toList :=
      ⟨rfl, rfl, rfl, by decide, by decide +kernel⟩
    obtain ⟨-, hiff⟩ := format_clean_iff (by decide) hformat hchanged hstrip (by decide) (by decide)
    exact ⟨hformat, hchanged, fun hclean => (hiff hnewline).mp hclean hopens⟩
  · have hformat : (format o indent described).result = .ok clean := by decide +kernel
    have hchanged : clean ≠ described := by decide
    have hstrip : strip described =
        .ok ⟨tripleDouble, "foo \n\n:param x: one two".toList⟩ := by rfl
    have hopens : ¬ OpensWithBlank o "foo \n\n:param x: one two".toList :=
      fun h => absurd h.2.2.2.2 (by decide +kernel)
    obtain ⟨-, hiff⟩ := format_clean_iff (by decide) hformat hchanged hstrip (by decide) (by decide)
    exact ⟨hformat, hchanged, (hiff hnewline).mpr hopens⟩

end Literals

end DocstringFormat.Docstring
