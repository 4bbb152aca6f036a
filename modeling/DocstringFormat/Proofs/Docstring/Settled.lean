import DocstringFormat.Proofs.Docstring.Reread
import DocstringFormat.Proofs.Docstring.Closing
import DocstringFormat.Proofs.Docstring.SummaryStability

/-!
Which formatted docstrings are formatted to themselves.

A literal without contents stays once it is formatted (`empty_settles`).  Any other one is taken apart
into the same opening and into contents with the words that were written.  The second run leaves these
alone for a reason that holds of them, or it lays them out anew.
A summary alone stays if its contents, in their new lines, have no description and their first letter
stays (`summary_settles_iff`).  A literal with a description stays if moreover no line of the summary
looks like an entry and the description is laid out to itself (`parts_settle_iff`).
-/

set_option autoImplicit false

namespace DocstringFormat.Docstring

open Text (words Trimmed Unbroken Over)

variable {o : Options} {indent literal opening contents out s : Text} {n : Nat}

section Again

theorem empty_settles (o : Options) (indent : Text) (h : strip literal = .ok ⟨opening, []⟩) :
    (format o indent literal).result = .ok (opening ++ tripleDouble) ∧
      (format o indent (opening ++ tripleDouble)).result = .ok (opening ++ tripleDouble) := by
  obtain ⟨q, hq, -, -, hopening, -⟩ := strip_eq_ok h
  have hread := strip_of_mem_canonicalOpenings (hopening ▸ canonical_mem hq) []
  rw [List.append_nil] at hread
  constructor
  · rw [result_format, h]
    rfl
  · rw [result_format, hread]
    rfl

private theorem format_eq_self_iff (hstrip : strip out = .ok ⟨opening, contents⟩)
    (hne : contents ≠ []) (hn : tabCompensation o indent = .ok n) :
    (format o indent out).result = .ok out ↔
      leaveReason? o contents ≠ none ∨ rewritten o indent opening contents n = out := by
  rw [result_format, hstrip, hn]
  simp only [if_neg hne]
  cases leaveReason? o contents with
  | some reason => simp
  | none => simp [Except.map]

private theorem normalizeSummary_eq_self {nonCap : List Text} (hs : Trimmed s)
    (h : Text.squeeze (normalizeSummary nonCap s) = Text.squeeze s) :
    normalizeSummary nonCap s = s := by
  obtain ⟨start, stop, hstart, hstop, hnormal⟩ := normalizeSummary_edits nonCap s
  rw [Text.trimEnd_eq_self hs.last] at hstart
  have hsolid : Text.squeeze stop = stop := by
    rcases hstop with rfl | rfl <;> rfl
  rw [hnormal, Text.squeeze_append, hsolid] at h
  rw [hnormal]
  rcases hstart with rfl | ⟨c, rest, rfl, rfl⟩
  · rw [List.append_right_eq_self.mp h, List.append_nil]
  · obtain ⟨hne, hupper⟩ := solid_uppercase (hs.head c rfl)
    have hc : Text.squeeze (c :: rest) = c :: Text.squeeze rest := by
      simp [Text.squeeze, hs.head c rfl]
    rw [Text.squeeze_append, Text.squeeze_of_solid hupper, hc, List.append_assoc] at h
    obtain ⟨d, more, hcons⟩ := List.exists_cons_of_ne_nil hne
    rw [hcons, List.cons_append, List.cons.injEq] at h
    have hlength := congrArg List.length h.2
    simp only [List.length_append] at hlength
    obtain rfl : more = [] := List.length_eq_zero_iff.mp (by omega)
    obtain rfl : stop = [] := List.length_eq_zero_iff.mp (by omega)
    rw [hcons, h.1]
    simp

private theorem normalizeSummary_of_rewritten {x : Text} (hind : Text.isBlank indent = true)
    (hopening : opening ∈ canonicalOpenings) (hx : Trimmed x.trim)
    (h : rewritten o indent opening x.trim n = opening ++ x ++ tripleDouble) :
    normalizeSummary o.nonCap (split o.abbreviations x.trim).1 =
      (split o.abbreviations x.trim).1 := by
  have hlaid := squeeze_rewritten (o := o) hind hopening x.trim n
  have hwords := words_split o.abbreviations x.trim
  have hsplit : Text.squeeze x = Text.squeeze (split o.abbreviations x.trim).1 ++
      Text.squeeze (split o.abbreviations x.trim).2 := by
    rw [Text.words_trim] at hwords
    rw [← Text.flatten_words, hwords, List.flatten_append, Text.flatten_words, Text.flatten_words]
  rw [h, Text.squeeze_append, Text.squeeze_append, Text.squeeze_of_solid (canonical_solid hopening),
    Text.squeeze_of_solid tripleDouble_solid, hsplit] at hlaid
  refine normalizeSummary_eq_self (trimmed_split hx) ?_
  simpa using hlaid.symm

private theorem words_ne_nil_of_last (hne : s ≠ [])
    (hlast : ∀ c, s.getLast? = some c → Character.isBlank c = false) : words s ≠ [] := by
  intro hnil
  have hblank := Text.isBlank_congr_words (s := s) (t := []) hnil
  obtain ⟨c, hc⟩ : ∃ c, s.getLast? = some c := ⟨_, List.getLast?_eq_some_getLast hne⟩
  have hsolid := hlast c hc
  rw [List.all_eq_true.mp hblank c (List.mem_of_getLast? hc)] at hsolid
  cases hsolid

private theorem description_ne_nil {summary description : List Text} (hcontents : Trimmed contents)
    (hreturn : '\r' ∉ contents) (h : splitLines? contents.lines = some (summary, description)) :
    Text.trimEnd (Text.unlines description) ≠ [] := by
  have hunlines : Text.unlines contents.lines = contents :=
    Text.unlines_lines (Text.plain_of_not_mem_return hreturn) (hcontents.last_ne (by decide))
  obtain ⟨-, first, more, hsummary⟩ := splitLines?_eq_some_cons h
  obtain ⟨init, m, hinit⟩ : ∃ init m, summary = init ++ [m] :=
    ⟨_, _, (List.dropLast_append_getLast (by simp [hsummary])).symm⟩
  obtain ⟨l, ls, hdescription⟩ : ∃ l ls, description = l :: ls := by
    unfold splitLines? at h
    split at h
    · cases h
    · split at h
      · cases h
      · rename_i hne
        cases h
        exact List.exists_cons_of_ne_nil hne
  have hsuffix : '\n' :: Text.unlines description <:+ contents := by
    have hlines := unlines_isSuffix init (m :: l :: ls)
    rw [splitLines?_eq_some h, hinit, hdescription, List.append_assoc, List.singleton_append] at hunlines
    rw [hunlines, Text.unlines_cons_cons] at hlines
    rw [hdescription]
    exact (List.suffix_append m _).trans hlines
  have hlast : ∀ c, ('\n' :: Text.unlines description).getLast? = some c →
      Character.isBlank c = false := by
    obtain ⟨z, hz⟩ := hsuffix
    intro c hc
    exact hcontents.last c (by rw [← hz, List.getLast?_append_of_ne_nil _ (by simp), hc])
  have hwords := words_ne_nil_of_last (by simp) hlast
  rw [Text.words_cons_blank (by decide), ← Text.words_trimEnd] at hwords
  intro hnil
  exact hwords (by rw [hnil]; rfl)

private theorem split_of_snd_eq_nil {abbreviations : List Text} (hcontents : Trimmed contents)
    (hreturn : '\r' ∉ contents) (h : (split abbreviations contents).2 = []) :
    (split abbreviations contents).1 = contents ∧ Unbroken contents := by
  have htrim : contents.trimEnd = contents := Text.trimEnd_eq_self hcontents.last
  unfold split at h ⊢
  rw [htrim] at h ⊢
  split
  · rename_i summary description hlines
    rw [hlines] at h
    exact absurd h (description_ne_nil hcontents hreturn hlines)
  · rename_i hlines
    refine ⟨?_, unbroken_of_splitLines?_eq_none hcontents hreturn hlines⟩
    rw [hlines] at h
    dsimp only at h ⊢
    split
    · rename_i hboth
      rw [if_pos hboth] at h
      simp only [Bool.and_eq_true, Bool.not_eq_true'] at hboth
      have htail := Text.trimmed_trim (Text.words_ne_nil_of_not_blank hboth.2)
      exact absurd (List.append_eq_nil_iff.mp h).2 htail.ne_nil
    · rfl

private theorem parts?_of_strip (hstrip : strip literal = .ok ⟨opening, contents⟩)
    (hne : contents ≠ []) (hleave : leaveReason? o contents = none)
    (hn : tabCompensation o indent = .ok n) (hd : (split o.abbreviations contents).2 ≠ []) :
    parts? o indent literal = some
      { opening,
        summary := wrapSummary (normalizeSummary o.nonCap (split o.abbreviations contents).1)
          (if o.preSummaryNewline then indent else indent ++ [' ', ' ', ' ']) indent
          (o.wrapSummaries - n),
        description := wrapDescription (descriptionOptions o n)
          (split o.abbreviations contents).2 indent } := by
  simp [parts?, hstrip, hn, hne, hleave, hd]

private theorem return_not_mem_trim {x : Text} (h : '\r' ∉ opening ++ x ++ tripleDouble) :
    '\r' ∉ x.trim := by
  intro hmem
  apply h
  have hx : '\r' ∈ x := (Text.trim_isInfix x).subset hmem
  simp [hx]

end Again

section Summaries

private theorem wrapSummary_wrapSummary {initial subsequent : Text}
    (hi : Text.isBlank initial = true)
    (hs : Text.isBlank subsequent = true) (s : Text) (columns : Nat) :
    wrapSummary (wrapSummary s initial subsequent columns) initial subsequent columns =
      wrapSummary s initial subsequent columns := by
  rcases Nat.eq_zero_or_pos columns with rfl | hcolumns
  · rfl
  · exact wrapSummary_eq_of_words hcolumns (words_wrapSummary hi hs s columns)

private theorem words_behind_quotes {gap x y : Text} (hopening : opening ∈ canonicalOpenings)
    (hgap : Text.isBlank gap = true) (hx : Trimmed x) (hy : Trimmed y) (h : words x = words y) :
    words (opening ++ gap ++ x) = words (opening ++ gap ++ y) := by
  by_cases hnone : gap = []
  · subst hnone
    obtain ⟨w, ws, hwords⟩ := List.exists_cons_of_ne_nil hx.words_ne_nil
    rw [List.append_nil, Text.words_solid_append (canonical_solid hopening) hx.head hwords,
      Text.words_solid_append (canonical_solid hopening) hy.head (h ▸ hwords)]
  · rw [Text.words_append_blanks _ hnone hgap, Text.words_append_blanks _ hnone hgap, h]

private theorem not_mem_openingQuotes (o : Options) (hopening : opening ∈ canonicalOpenings)
    {c : Char}
    (hblank : Character.isBlank c = true) (hspace : c ≠ ' ') : c ∉ openingQuotes o opening := by
  have hmem : c ∉ opening := fun h => by
    rw [canonical_solid hopening c h] at hblank
    cases hblank
  unfold openingQuotes
  split
  · simp [hmem, hspace]
  · exact hmem

private theorem trimmed_append_tripleDouble (hs : Trimmed s) : Trimmed (s ++ tripleDouble) where
  ne_nil := by simp [hs.ne_nil]
  head c hc := by
    rw [List.head?_append_of_ne_nil _ hs.ne_nil] at hc
    exact hs.head c hc
  last c hc := by
    rw [List.getLast?_append_of_ne_nil _ (by decide)] at hc
    exact tripleDouble_solid c (List.mem_of_getLast? hc)

private theorem exists_eq_append_trim {body gap : Text} (hs : Trimmed s)
    (h : words (body ++ tripleDouble) = words (gap ++ s ++ tripleDouble)) :
    body = Text.leadingBlanks body ++ body.trim := by
  obtain ⟨u, v, w, rfl, hv, hw, -, hlast⟩ :=
    Text.exists_last_run_of_words tripleDouble_solid (by decide) h
  have hne : w ≠ [] := by
    rintro rfl
    obtain ⟨c, hc⟩ : ∃ c, s.getLast? = some c := ⟨_, List.getLast?_eq_some_getLast hs.ne_nil⟩
    have hblank := hlast c
    rw [← List.append_nil v, ← hv, List.getLast?_append_of_ne_nil _ hs.ne_nil] at hblank
    have hsolid := hs.last c hc
    rw [hblank hc] at hsolid
    cases hsolid
  have hend : ∀ c, (Text.trimStart (u ++ w)).getLast? = some c → Character.isBlank c = false := by
    intro c hc
    have hpart : Text.trimStart (u ++ w) ≠ [] := by
      intro hnil
      rw [hnil] at hc
      cases hc
    have hall : (u ++ w).getLast? = some c := by
      rw [← Text.leadingBlanks_append_trimStart (u ++ w), List.getLast?_append_of_ne_nil _ hpart, hc]
    rw [List.getLast?_append_of_ne_nil _ hne] at hall
    exact hw c (List.mem_of_getLast? hall)
  rw [Text.trim, Text.trimEnd_eq_self hend, Text.leadingBlanks_append_trimStart]

private theorem exists_layoutSummary_again (hind : Text.isBlank indent = true)
    (hopening : opening ∈ canonicalOpenings) (hs : Trimmed s) :
    ∃ x, layoutSummary o indent (openingQuotes o opening) s n = opening ++ x ++ tripleDouble ∧
      words x = words s ∧
      layoutSummary o indent (openingQuotes o opening) x.trim n =
        layoutSummary o indent (openingQuotes o opening) s n ∧
      ('\n' ∉ indent → Unbroken s → '\r' ∉ s → Unbroken x.trim) := by
  obtain ⟨gap, hgap, hquotes⟩ := exists_openingQuotes_eq o opening
  rw [hquotes]
  generalize hcolumns : o.wrapSummaries - n = columns
  simp only [layoutSummary, hcolumns]
  cases o.makeSummaryMultiLine with
  | true =>
    simp only [if_true]
    have htrim : Text.trim (gap ++ '\n' :: indent ++ (wrapSummary s indent indent columns ++
        '\n' :: indent)) = wrapSummary s indent indent columns :=
      (trimmed_wrapSummary hind hind hs columns).trim_between
        (by rw [Text.isBlank_append, hgap]; exact hind) hind
    refine ⟨gap ++ '\n' :: indent ++ (wrapSummary s indent indent columns ++ '\n' :: indent),
      by simp, ?_, ?_, ?_⟩
    · rw [← Text.words_trim, htrim, words_wrapSummary hind hind]
    · rw [htrim, wrapSummary_wrapSummary hind hind]
    · intro hnewline hunbroken hreturn
      rw [htrim]
      exact (unbroken_wrapSummary hnewline hnewline hunbroken hreturn columns).1
  | false =>
    simp only [Bool.false_eq_true, if_false]
    obtain ⟨body, hline, hbody, hsame⟩ := exists_wrapped_eq hind hopening (gap ++ s) columns
    rw [Text.words_blank_append hgap] at hbody
    have hsplit := exists_eq_append_trim hs hsame
    have htrimmed : Trimmed body.trim := Text.trimmed_trim (by rw [hbody]; exact hs.words_ne_nil)
    have hlead := Text.isBlank_leadingBlanks body
    have hbefore : Text.before? tripleDouble (opening ++ body ++ tripleDouble) =
        some (opening ++ body) := Text.before?_eq_some.mpr rfl
    have hagain : wrapSummary (opening ++ gap ++ body.trim ++ tripleDouble) indent indent columns =
        opening ++ body ++ tripleDouble := by
      rcases Nat.eq_zero_or_pos columns with rfl | hpos
      · have hsame' : gap ++ s = body := by
          rw [wrapSummary, if_pos rfl] at hline
          exact List.append_cancel_left (List.append_cancel_right hline)
        have htrim := hs.trim_between (b := []) hgap rfl
        rw [List.append_nil, hsame'] at htrim
        rw [wrapSummary, if_pos rfl, htrim, ← hsame']
        simp
      · have hwords : words (body.trim ++ tripleDouble) = words (s ++ tripleDouble) := by
          rw [hsplit, List.append_assoc, Text.words_blank_append hlead, List.append_assoc,
            Text.words_blank_append hgap] at hsame
          exact hsame
        have hquoted := words_behind_quotes hopening hgap (trimmed_append_tripleDouble htrimmed)
          (trimmed_append_tripleDouble hs) hwords
        rw [← hline]
        apply wrapSummary_eq_of_words hpos
        simpa only [List.append_assoc] using hquoted
    have hunbroken : '\n' ∉ indent → Unbroken s → '\r' ∉ s → Unbroken body.trim := by
      intro hnewline hunbroken hreturn
      have hquoted : Unbroken (openingQuotes o opening ++ s ++ tripleDouble) := by
        have hclosed : Unbroken (s ++ ['"'] ++ ['"'] ++ ['"']) :=
          ((hunbroken.concat (by decide)).concat (by decide)).concat (by decide)
        simp only [List.append_assoc] at hclosed ⊢
        exact hclosed.prepend (not_mem_openingQuotes o hopening (by decide) (by decide))
      have hplain : '\r' ∉ openingQuotes o opening ++ s ++ tripleDouble := by
        have hquotes := not_mem_openingQuotes o hopening (c := '\r') (by decide) (by decide)
        simp [hquotes, hreturn, tripleDouble]
      have hwrapped := (unbroken_wrapSummary hnewline hnewline hquoted hplain columns).1
      rw [hquotes, List.append_assoc opening, hline] at hwrapped
      exact hwrapped.of_isInfix ((Text.trim_isInfix body).trans ⟨opening, tripleDouble, rfl⟩)
    have hpad : ∀ b, Text.isBlank b = true → Text.trim (body ++ b) = body.trim := by
      intro b hb
      have htrim := htrimmed.trim_between hlead hb
      rwa [← List.append_assoc, ← hsplit] at htrim
    have hfirst : wrapSummary (opening ++ gap ++ s ++ tripleDouble) indent indent columns =
        opening ++ body ++ tripleDouble := by
      rw [← hline]
      simp only [List.append_assoc]
    rw [hfirst, hbefore]
    cases hclose : o.closeQuotesOnNewline && (opening ++ body ++ tripleDouble).contains '\n' with
    | true =>
      have htrim := hpad ('\n' :: indent) hind
      refine ⟨body ++ '\n' :: indent, by simp, ?_, ?_, ?_⟩
      · rw [← Text.words_trim, htrim, Text.words_trim, hbody]
      · rw [htrim, hagain, hclose, hbefore]
      · rw [htrim]
        exact hunbroken
    | false =>
      refine ⟨body, by simp, hbody, ?_, hunbroken⟩
      rw [hagain, hclose, hbefore]

/-- A docstring of a summary alone is written with the words of the normalised summary, and its contents
are read again.  Formatting keeps it exactly if these contents are left alone, or have no description in
their new lines and are normalised to themselves. -/
theorem summary_settles_iff (hliteral : '\r' ∉ literal) (hindent : Text.isBlank indent = true)
    (hnewline : '\n' ∉ indent) (hreturn : '\r' ∉ indent) (hn : tabCompensation o indent = .ok n)
    (hstrip : strip literal = .ok ⟨opening, contents⟩) (hne : contents ≠ [])
    (hleave : leaveReason? o contents = none) (hlone : (split o.abbreviations contents).2 = []) :
    ∃ out again, (format o indent literal).result = .ok out ∧ strip out = .ok ⟨opening, again⟩ ∧
      words again = words (normalizeSummary o.nonCap contents) ∧
      ((format o indent out).result = .ok out ↔
        leaveReason? o again ≠ none ∨
          (split o.abbreviations again).2 = [] ∧ normalizeSummary o.nonCap again = again) := by
  obtain ⟨hopening, hcontents, hplain⟩ := contents_of_strip hliteral hstrip hne
  obtain ⟨hsummary, hunbroken⟩ := split_of_snd_eq_nil hcontents hplain hlone
  have hnormal := trimmed_normalizeSummary o.nonCap hcontents
  obtain ⟨x, hlaid, hwords, hagain, hbroken⟩ :=
    exists_layoutSummary_again (o := o) (n := n) hindent hopening hnormal
  have hover : Over (· ≠ '\r') (normalizeSummary o.nonCap contents) :=
    over_normalizeSummary admits_ne_return (fun c hc heq => hplain (heq ▸ hc)) o.nonCap
  have hformat : (format o indent literal).result = .ok (opening ++ x ++ tripleDouble) := by
    rw [result_format, hstrip, hn, ← hlaid]
    simp [hne, hleave, Except.map, rewritten, hlone, hsummary]
  have hout := return_not_mem_format hliteral hreturn hformat
  have hread := strip_of_mem_canonicalOpenings hopening x
  have htrimmed : Trimmed x.trim := Text.trimmed_trim (by rw [hwords]; exact hnormal.words_ne_nil)
  refine ⟨_, x.trim, hformat, hread, by rw [Text.words_trim, hwords], ?_⟩
  rw [format_eq_self_iff hread htrimmed.ne_nil hn]
  by_cases hleft : leaveReason? o x.trim = none
  case neg => simp [hleft]
  simp only [hleft, ne_eq, not_true_eq_false, false_or]
  by_cases hd : (split o.abbreviations x.trim).2 = []
  · obtain ⟨hall, -⟩ := split_of_snd_eq_nil htrimmed (return_not_mem_trim hout) hd
    constructor
    · intro h
      have hkept := normalizeSummary_of_rewritten hindent hopening htrimmed h
      rw [hall] at hkept
      exact ⟨hd, hkept⟩
    · rintro ⟨-, hfixed⟩
      rw [← hlaid, ← hagain]
      simp [rewritten, hd, hall, hfixed]
  · refine ⟨fun h => ?_, fun h => absurd h.1 hd⟩
    -- A literal with a description has an empty line in its contents.
    have hparts := parts?_of_strip hread htrimmed.ne_nil hleft hn hd
    obtain ⟨-, -, -, -, -, -, -, -, hresult⟩ := parts?_eq_some hparts
    have hfixed := (format_eq_self_iff hread htrimmed.ne_nil hn).mpr (Or.inr h)
    have hsame := strip_literal_of_parts? hout hindent hparts
    rw [Except.ok.inj (hresult.symm.trans hfixed), hread] at hsame
    have htext := congrArg Stripped.contents (Except.ok.inj hsame)
    have hempty := hbroken hnewline (unbroken_normalizeSummary o.nonCap hcontents hunbroken)
      (fun hmem => hover _ hmem rfl) _ [] _ (by simpa [Parts.contents] using htext)
    cases hempty

-- The line break made an identifier of the first word; the capital letter hides an abbreviation.
example :
    (format {} [] "'''name\nfoo_bar is.'''".toList).result =
        .ok "\"\"\"name foo_bar is.\"\"\"".toList ∧
      (format {} [] "\"\"\"name foo_bar is.\"\"\"".toList).result =
        .ok "\"\"\"Name foo_bar is.\"\"\"".toList ∧
      (format {} [] "'''etc. and so on'''".toList).result =
        .ok "\"\"\"Etc. and so on.\"\"\"".toList ∧
      (format {} [] "\"\"\"Etc. and so on.\"\"\"".toList).result =
        .ok "\"\"\"Etc.\n\nand so on.\n\"\"\"".toList := by
  decide +kernel

end Summaries

section Descriptions

variable {summary description : Text} {p : Parts}

private theorem eq_nil_of_blank_line {a u x y : Text} (h : Unbroken (a ++ u))
    (hlast : Trimmed (a ++ u))
    (heq : u ++ (['\n', '\n'] ++ x) = ['\n', '\n'] ++ y) : u = [] := by
  match u with
  | [] => rfl
  | [c] =>
    have hc : c = '\n' := (List.cons.inj heq).1
    have hend := hlast.last c (by simp)
    rw [hc] at hend
    exact absurd hend (by decide)
  | c :: d :: z =>
    have hc : c = '\n' := (List.cons.inj heq).1
    have hd : d = '\n' := (List.cons.inj (List.cons.inj heq).2).1
    have hblank := h a [] z (by simp [hc, hd])
    cases hblank

private theorem eq_of_blank_line {a b x y : Text} (ha : Unbroken a) (hb : Unbroken b)
    (hta : Trimmed a) (htb : Trimmed b)
    (heq : a ++ ['\n', '\n'] ++ x = b ++ ['\n', '\n'] ++ y) : a = b ∧ x = y := by
  rw [List.append_assoc, List.append_assoc] at heq
  have hsame : a = b := by
    rcases List.append_eq_append_iff.mp heq with ⟨u, rfl, hu⟩ | ⟨u, rfl, hu⟩
    · rw [eq_nil_of_blank_line hb htb hu.symm, List.append_nil]
    · rw [eq_nil_of_blank_line ha hta hu.symm, List.append_nil]
  subst hsame
  exact ⟨rfl, List.append_cancel_left (List.append_cancel_left heq)⟩

private theorem Framed.words_description_ne_nil (h : Framed summary description) :
    words description ≠ [] :=
  words_ne_nil_of_last h.ne_nil h.last

private theorem Readable.snd_split_ne_nil (h : Readable summary description)
    (abbreviations : List Text) :
    (split abbreviations (summary ++ ['\n', '\n'] ++ description)).2 ≠ [] := by
  obtain ⟨first, rest, hcons⟩ := List.exists_cons_of_ne_nil (Text.lines_ne_nil h.trimmed.ne_nil)
  rw [h.split_eq hcons]
  dsimp only
  intro hnil
  have hwords := Text.words_trimEnd (Text.unlines
    ((rest.dropWhile fun line => !startsDescription line) ++ [] :: description.lines))
  rw [hnil, Text.words_unlines, List.flatMap_append, List.flatMap_cons, Text.flatMap_words_lines]
    at hwords
  have hnone := (List.append_eq_nil_iff.mp (List.append_eq_nil_iff.mp hwords.symm).2).2
  exact h.words_description_ne_nil hnone

private theorem Readable.isSentenceStart_eq_false (h : Readable summary description)
    {abbreviations : List Text}
    (hwords : words (split abbreviations (summary ++ ['\n', '\n'] ++ description)).1 =
      words summary) :
    ∀ line ∈ summary.lines.tail, Markup.isSentenceStart line = false := by
  obtain ⟨first, rest, hcons⟩ := List.exists_cons_of_ne_nil (Text.lines_ne_nil h.trimmed.ne_nil)
  have hsolid := Text.isBlank_of_mem_tail_lines h.unbroken h.plain_summary h.trimmed.last
  rw [hcons, List.tail_cons] at hsolid ⊢
  have hall : words summary = words first ++ ((rest.takeWhile fun line => !startsDescription line) ++
      rest.dropWhile fun line => !startsDescription line).flatMap words := by
    rw [List.takeWhile_append_dropWhile, ← List.flatMap_cons, ← hcons, Text.flatMap_words_lines]
  rw [h.split_eq hcons, Text.words_trim, Text.words_unlines, List.flatMap_cons, hall,
    List.flatMap_append] at hwords
  have hnone : (rest.dropWhile fun line => !startsDescription line).flatMap words = [] :=
    (List.self_eq_append_right.mp (List.append_cancel_left hwords))
  have hdrop : (rest.dropWhile fun line => !startsDescription line) = [] := by
    by_contra hne
    obtain ⟨line, more, hline⟩ := List.exists_cons_of_ne_nil hne
    have hmem : line ∈ rest := (List.dropWhile_suffix _).subset (hline ▸ List.mem_cons_self)
    rw [hline, List.flatMap_cons] at hnone
    exact Text.words_ne_nil_of_not_blank (hsolid line hmem) (List.append_eq_nil_iff.mp hnone).1
  intro line hline
  have hstart := List.dropWhile_eq_nil_iff.mp hdrop line hline
  simp only [startsDescription, Bool.not_eq_true', Bool.or_eq_false_iff] at hstart
  exact hstart.2

private theorem wrapDescription_cons_newline (hwords : words description ≠ [])
    (d : DescriptionOptions) :
    wrapDescription d ('\n' :: description) indent = wrapDescription d description indent := by
  have hlines : Text.lines ('\n' :: description) = [] :: description.lines :=
    Text.lines_append_newline (b := []) (by simp) (by simp) description
  have hdrop : Text.dropLeadingBlankLines ('\n' :: description) =
      Text.dropLeadingBlankLines description := by
    have hfirst : ([] :: description.lines).dropWhile Text.isBlank =
        description.lines.dropWhile Text.isBlank := rfl
    rw [Text.dropLeadingBlankLines, Text.dropLeadingBlankLines, hlines, hfirst]
    split
    · rename_i hnone
      refine absurd ?_ hwords
      rw [← Text.flatMap_words_lines, List.flatMap_eq_nil_iff]
      exact fun l hl => Text.words_of_blank (List.dropWhile_eq_nil_iff.mp hnone l hl)
    · rfl
  rw [wrapDescription, wrapDescription, treatment, treatment, hdrop]

/-- Formatting keeps a docstring that it wrote with a description exactly if its contents are left alone,
or no later line of its summary looks like an entry, the summary is normalised to itself and the
description is laid out to itself. -/
theorem parts_settle_iff (hliteral : '\r' ∉ literal) (hindent : Text.isBlank indent = true)
    (hnewline : '\n' ∉ indent) (hreturn : '\r' ∉ indent) (hn : tabCompensation o indent = .ok n)
    (hp : parts? o indent literal = some p) :
    (format o indent (p.literal o indent)).result = .ok (p.literal o indent) ↔
      leaveReason? o p.contents ≠ none ∨
        (∀ line ∈ p.summary.lines.tail, Markup.isSentenceStart line = false) ∧
          normalizeSummary o.nonCap p.summary = p.summary ∧
          wrapDescription (descriptionOptions o n) p.description indent = p.description := by
  have hread := strip_literal_of_parts? hliteral hindent hp
  have hreadable := readable_of_parts? hliteral hindent hnewline hp
  have htrimmed : Trimmed p.contents := hreadable.trimmed_contents
  by_cases hleft : leaveReason? o p.contents = none
  case neg => simp [format_eq_self_iff hread htrimmed.ne_nil hn, hleft]
  simp only [hleft, ne_eq, not_true_eq_false, false_or]
  obtain ⟨contents, m, hstrip, hm, hne, -, hsummary, -, hformat⟩ := parts?_eq_some hp
  obtain rfl : m = n := Except.ok.inj (hm.symm.trans hn)
  have hparts := parts?_of_strip hread htrimmed.ne_nil hleft hn
    (hreadable.snd_split_ne_nil o.abbreviations)
  have hout := return_not_mem_format hliteral hreturn hformat
  have hinitial := isBlank_summaryLead hindent o.preSummaryNewline
  have hdescription := hreadable.words_description_ne_nil
  obtain ⟨-, -, -, -, -, -, -, -, hresult⟩ := parts?_eq_some hparts
  constructor
  · intro hfixed
    have hrewritten := ((format_eq_self_iff hread htrimmed.ne_nil hn).mp hfixed).resolve_left
      (absurd hleft)
    obtain ⟨before, after, hbefore, hafter, hlaid⟩ := exists_literal_eq o hindent p
    have htrim := htrimmed.trim_between hbefore hafter
    obtain ⟨hopening, -, -⟩ := contents_of_strip hliteral hstrip hne
    have hnormal := normalizeSummary_of_rewritten hindent hopening (htrim.symm ▸ htrimmed)
      (by rw [htrim, hrewritten, hlaid])
    rw [htrim] at hnormal
    -- Both times the first empty line of the contents comes behind the summary.
    have hagain := strip_literal_of_parts? hout hindent hparts
    have hreadable' := readable_of_parts? hout hindent hnewline hparts
    rw [Except.ok.inj (hresult.symm.trans hfixed), hread] at hagain
    have hcontents := congrArg Stripped.contents (Except.ok.inj hagain)
    obtain ⟨hfirst, hbody⟩ := eq_of_blank_line hreadable.unbroken hreadable'.unbroken
      hreadable.trimmed hreadable'.trimmed hcontents
    dsimp only at hfirst hbody
    have hwords : words (split o.abbreviations p.contents).1 = words p.summary := by
      rw [hfirst, words_wrapSummary hinitial hindent, hnormal]
    have hentries := hreadable.isSentenceStart_eq_false hwords
    have hsplit : split o.abbreviations p.contents = (p.summary, '\n' :: p.description) :=
      hreadable.split_contents hentries o.abbreviations
    rw [hsplit] at hnormal hbody
    refine ⟨hentries, hnormal, ?_⟩
    rw [← wrapDescription_cons_newline hdescription]
    exact hbody.symm
  · rintro ⟨hentries, hkept, hlaid⟩
    have hsplit : split o.abbreviations p.contents = (p.summary, '\n' :: p.description) :=
      hreadable.split_contents hentries o.abbreviations
    rw [hresult, hsplit]
    dsimp only
    rw [hkept, wrapDescription_cons_newline hdescription, hlaid, hsummary,
      wrapSummary_wrapSummary hinitial hindent, ← hsummary]

end Descriptions

end DocstringFormat.Docstring
