import DocstringFormat.Proofs.Docstring.Format

/-!
Formatting a literal loses, doubles and moves no text.

Blanks aside, a rewritten literal is its contents between fresh quotes, with at most two edits:
the first character in uppercase, and a period after the summary.
-/

set_option autoImplicit false

namespace DocstringFormat.Docstring

open Text (words)

/-- `edited` is `contents` with at most two edits: its first character in uppercase, and a period
right after the last character of the summary. -/
def Retouched (summary contents edited : Text) : Prop :=
  ∃ head tail start stop, contents = head ++ tail ∧ words head = words summary ∧
    (∀ c, head.getLast? = some c → Character.isBlank c = false) ∧
    (start = head ∨ start = capitalize head) ∧ (stop = [] ∨ stop = ['.']) ∧
    edited = start ++ stop ++ tail

/-- The openings of rewritten literals. -/
def canonicalOpenings : List Text :=
  [tripleDouble, 'r' :: tripleDouble, 'u' :: tripleDouble]

theorem strip_eq_ok {literal opening contents : Text}
    (h : strip literal = .ok ⟨opening, contents⟩) :
    ∃ o ∈ Opening.all, ∃ inner, literal.trim = o.text ++ inner ++ o.quote ∧
      opening = o.canonical ∧ contents = inner.trim := by
  unfold strip at h
  split at h
  · rename_i stripped hstripped
    cases h
    obtain ⟨o, ho, hinner⟩ := List.exists_of_findSome?_eq_some hstripped
    obtain ⟨inner, hbetween, hcontents⟩ := Option.map_eq_some_iff.mp hinner
    cases hcontents
    obtain ⟨rest, hafter, hbefore⟩ := Option.bind_eq_some_iff.mp hbetween
    have hrest : literal.trim = o.text ++ rest := Text.after?_eq_some.mp hafter
    have hend : rest = inner ++ o.quote := Text.before?_eq_some.mp hbefore
    refine ⟨o, ho, inner, ?_, rfl, rfl⟩
    rw [hrest, hend, List.append_assoc]
  · cases h

theorem canonical_mem {o : Opening} (ho : o ∈ Opening.all) : o.canonical ∈ canonicalOpenings := by
  have hall : ∀ p ∈ Opening.all, p.canonical ∈ canonicalOpenings := by decide
  exact hall o ho

theorem canonical_solid {opening : Text} (h : opening ∈ canonicalOpenings) :
    Text.Solid opening := by
  have hall : ∀ p ∈ canonicalOpenings, p.all (fun c => !Character.isBlank c) = true := by decide
  intro c hc
  simpa using List.all_eq_true.mp (hall opening h) c hc

theorem canonical_ne_nil {opening : Text} (h : opening ∈ canonicalOpenings) : opening ≠ [] := by
  have hall : ∀ p ∈ canonicalOpenings, p ≠ [] := by decide
  exact hall opening h

theorem tripleDouble_solid : Text.Solid tripleDouble :=
  canonical_solid (List.mem_cons_self)

theorem words_wrapSummary {initial subsequent : Text} (hi : Text.isBlank initial = true)
    (hs : Text.isBlank subsequent = true) (summary : Text) (columns : Nat) :
    words (wrapSummary summary initial subsequent columns) = words summary := by
  unfold wrapSummary
  split
  · rfl
  · rw [Text.words_trim, Text.words_unlines, Text.flatMap_words_fill hi hs, Text.words_unwrap]

private theorem squeeze_openingQuotes {o : Options} {opening : Text}
    (h : opening ∈ canonicalOpenings) : Text.squeeze (openingQuotes o opening) = opening := by
  have hopening := Text.squeeze_of_solid (canonical_solid h)
  unfold openingQuotes
  split
  · rw [Text.squeeze_append, hopening, Text.squeeze_of_blank (by decide), List.append_nil]
  · exact hopening

private theorem squeeze_tripleDouble : Text.squeeze tripleDouble = tripleDouble := by decide

theorem isBlank_summaryLead {indent : Text} (hind : Text.isBlank indent = true) (newline : Bool) :
    Text.isBlank (if newline then indent else indent ++ [' ', ' ', ' ']) = true := by
  split
  · exact hind
  · rw [Text.isBlank_append, hind]
    rfl

private theorem squeeze_layoutWithDescription {o : Options} {indent : Text}
    (hind : Text.isBlank indent = true) (quotes summary description : Text) (compensation : Nat) :
    Text.squeeze (layoutWithDescription o indent quotes summary description compensation) =
      Text.squeeze quotes ++ Text.squeeze summary ++ Text.squeeze description ++ tripleDouble := by
  have hinitial := isBlank_summaryLead hind o.preSummaryNewline
  have hlead : Text.squeeze (if o.preSummaryNewline then '\n' :: indent else []) = [] := by
    apply Text.squeeze_of_blank
    split
    · rw [← List.singleton_append, Text.isBlank_append, hind]
      rfl
    · rfl
  have hafter : Text.squeeze (if o.postDescriptionBlank then ['\n'] else []) = [] := by
    split <;> rfl
  have hfirst := Text.squeeze_eq_of_words
    (words_wrapSummary hinitial hind summary (o.wrapSummaries - compensation))
  have hbody := squeeze_wrapDescription hind (descriptionOptions o compensation) description
  have hbreak : Text.squeeze ['\n', '\n'] = [] := by decide
  have hnewline : Text.squeeze ['\n'] = [] := by decide
  simp only [layoutWithDescription, Text.squeeze_append, hlead, hfirst, hbody, hafter, hbreak,
    hnewline, Text.squeeze_of_blank hind, squeeze_tripleDouble, List.append_nil]

theorem exists_wrapSummary_eq {initial subsequent : Text} (hi : Text.isBlank initial = true)
    (hs : Text.isBlank subsequent = true) (s : Text) (columns : Nat) :
    ∃ body, wrapSummary (s ++ tripleDouble) initial subsequent columns = body ++ tripleDouble ∧
      words body = words s := by
  by_cases hzero : columns = 0
  · refine ⟨s, ?_, rfl⟩
    rw [wrapSummary, if_pos hzero]
  · have hwords := words_wrapSummary hi hs (s ++ tripleDouble) columns
    refine Text.exists_eq_append_of_words tripleDouble_solid (by decide) ?_ hwords
    intro c hc
    rw [wrapSummary, if_neg hzero, Text.trim] at hc
    exact Text.getLast?_trimEnd hc

private theorem squeeze_layoutSummary {o : Options} {indent : Text}
    (hind : Text.isBlank indent = true)
    (quotes summary : Text) (compensation : Nat) :
    Text.squeeze (layoutSummary o indent quotes summary compensation) =
      Text.squeeze quotes ++ Text.squeeze summary ++ tripleDouble := by
  have hnewline : Text.squeeze ['\n'] = [] := by decide
  have hfirst := Text.squeeze_eq_of_words
    (words_wrapSummary hind hind summary (o.wrapSummaries - compensation))
  obtain ⟨body, hline, hbody⟩ := exists_wrapSummary_eq hind hind (quotes ++ summary)
    (o.wrapSummaries - compensation)
  have hbefore : Text.before? tripleDouble (body ++ tripleDouble) = some body :=
    Text.before?_eq_some.mpr rfl
  have hsqueeze : Text.squeeze body = Text.squeeze quotes ++ Text.squeeze summary := by
    rw [Text.squeeze_eq_of_words hbody, Text.squeeze_append]
  simp only [layoutSummary, hline, hbefore, Option.getD_some]
  split
  · simp only [Text.squeeze_append, hfirst, hnewline, Text.squeeze_of_blank hind,
      squeeze_tripleDouble, List.append_nil]
  · split
    · simp only [Text.squeeze_append, hsqueeze, hnewline, Text.squeeze_of_blank hind,
        squeeze_tripleDouble, List.append_nil]
    · simp only [Text.squeeze_append, hsqueeze, squeeze_tripleDouble]

theorem squeeze_rewritten {o : Options} {indent opening : Text} (hind : Text.isBlank indent = true)
    (hopening : opening ∈ canonicalOpenings) (contents : Text) (compensation : Nat) :
    Text.squeeze (rewritten o indent opening contents compensation) =
      opening ++
        Text.squeeze (normalizeSummary o.nonCap (split o.abbreviations contents).1) ++
        Text.squeeze (split o.abbreviations contents).2 ++ tripleDouble := by
  simp only [rewritten]
  split
  · rename_i hempty
    rw [squeeze_layoutSummary hind, squeeze_openingQuotes hopening, List.isEmpty_iff.mp hempty]
    simp
  · rw [squeeze_layoutWithDescription hind, squeeze_openingQuotes hopening]

private theorem head?_split {abbreviations : List Text} {contents : Text}
    (h : ∀ c, contents.head? = some c → Character.isBlank c = false) {c : Char}
    (hc : (split abbreviations contents).1.head? = some c) : Character.isBlank c = false := by
  unfold split at hc
  split at hc
  · exact Text.head?_trim hc
  · cases hsentence : firstSentence abbreviations contents with
    | mk sentence rest =>
      rw [hsentence] at hc
      simp only at hc
      split at hc
      · exact Text.head?_trim hc
      · exact h c hc

private theorem head_eq_of_words {c d : Char} {s t : Text} (hc : Character.isBlank c = false)
    (hd : Character.isBlank d = false) (h : words (c :: s) = words (d :: t)) : c = d := by
  obtain ⟨v, vs, hv⟩ := Text.words_cons_solid hc s
  obtain ⟨w, ws, hw⟩ := Text.words_cons_solid hd t
  rw [hv, hw] at h
  simp only [List.cons.injEq] at h
  exact h.1.1

private theorem squeeze_cons {c : Char} (hc : Character.isBlank c = false) (s : Text) :
    Text.squeeze (c :: s) = c :: Text.squeeze s := by
  simp [Text.squeeze, hc]

private theorem squeeze_normalizeSummary (nonCap : List Text) {summary head : Text}
    (hwords : words head = words summary)
    (hhead : ∀ c, head.head? = some c → Character.isBlank c = false)
    (hsummary : ∀ c, summary.head? = some c → Character.isBlank c = false) :
    ∃ start stop, (start = head ∨ start = capitalize head) ∧ (stop = [] ∨ stop = ['.']) ∧
      Text.squeeze (normalizeSummary nonCap summary) = Text.squeeze (start ++ stop) := by
  obtain ⟨stop, hstop, hperiod⟩ : ∃ stop, (stop = [] ∨ stop = ['.']) ∧
      addPeriod summary.trimEnd = summary.trimEnd ++ stop := by
    unfold addPeriod
    split
    · exact ⟨['.'], Or.inr rfl, rfl⟩
    · exact ⟨[], Or.inl rfl, by simp⟩
  have htrim : words summary.trimEnd = words head := by
    rw [Text.words_trimEnd, hwords]
  have hsqueeze : Text.squeeze (summary.trimEnd ++ stop) = Text.squeeze (head ++ stop) := by
    rw [Text.squeeze_append, Text.squeeze_append, Text.squeeze_eq_of_words htrim]
  simp only [normalizeSummary, hperiod]
  split
  · exact ⟨head, stop, Or.inl rfl, hstop, hsqueeze⟩
  · refine ⟨capitalize head, stop, Or.inr rfl, hstop, ?_⟩
    cases htext : summary.trimEnd with
    | nil =>
      have hnil : stop = [] := by
        simpa [htext, addPeriod, wantsPeriod] using hperiod.symm
      have hempty : head = [] := by
        cases head with
        | nil => rfl
        | cons c r =>
          obtain ⟨w, ws, hw⟩ := Text.words_cons_solid (hhead c rfl) r
          rw [htext, hw] at htrim
          cases htrim
      rw [hempty, hnil]
      rfl
    | cons d t =>
      have hd : Character.isBlank d = false := by
        obtain ⟨r, hr⟩ := Text.dropEndWhile_isPrefix Character.isBlank summary
        apply hsummary d
        rw [← hr]
        show (summary.trimEnd ++ r).head? = some d
        rw [htext]
        rfl
      cases head with
      | nil =>
        obtain ⟨w, ws, hw⟩ := Text.words_cons_solid hd t
        rw [htext, hw] at htrim
        cases htrim
      | cons c r =>
        have hc : Character.isBlank c = false := hhead c rfl
        rw [htext] at htrim hsqueeze
        have hcd : d = c := head_eq_of_words hd hc htrim
        subst hcd
        have hrest : Text.squeeze (t ++ stop) = Text.squeeze (r ++ stop) := by
          simpa [squeeze_cons hd] using hsqueeze
        show Text.squeeze (Character.uppercase d ++ (t ++ stop)) =
          Text.squeeze (Character.uppercase d ++ r ++ stop)
        rw [List.append_assoc, Text.squeeze_append, hrest, ← Text.squeeze_append]

private theorem exists_summary_end (abbreviations : List Text) (contents : Text) :
    ∃ head tail, contents = head ++ tail ∧
      words head = words (split abbreviations contents).1 ∧
      words tail = words (split abbreviations contents).2 ∧
      ∀ c, head.getLast? = some c → Character.isBlank c = false := by
  have hsplit := words_split abbreviations contents
  by_cases hnone : words (split abbreviations contents).1 = []
  · refine ⟨[], contents, rfl, hnone.symm, ?_, by simp⟩
    rw [hsplit, hnone, List.nil_append]
  · obtain ⟨head, tail, hcut, hhead, htail, hlast⟩ := Text.exists_split_of_words hnone hsplit
    exact ⟨head, tail, hcut, hhead, htail, hlast⟩

private theorem exists_retouched {o : Options} {contents : Text}
    (hstart : ∀ c, contents.head? = some c → Character.isBlank c = false) :
    ∃ edited, Retouched (split o.abbreviations contents).1 contents edited ∧
      Text.squeeze edited =
        Text.squeeze (normalizeSummary o.nonCap (split o.abbreviations contents).1) ++
          Text.squeeze (split o.abbreviations contents).2 := by
  obtain ⟨head, tail, hcut, hhead, htail, hlast⟩ := exists_summary_end o.abbreviations contents
  have hheadStart : ∀ c, head.head? = some c → Character.isBlank c = false := by
    intro c hc
    apply hstart c
    rw [hcut, List.head?_append, hc]
    rfl
  obtain ⟨start, stop, hbegin, hstop, hsqueeze⟩ :=
    squeeze_normalizeSummary o.nonCap hhead hheadStart fun c hc => head?_split hstart hc
  refine ⟨start ++ stop ++ tail, ⟨head, tail, start, stop, hcut, hhead, hlast, hbegin, hstop, rfl⟩, ?_⟩
  rw [Text.squeeze_append, hsqueeze, Text.squeeze_eq_of_words htail]

/-- Blanks aside, a literal that is not left as it is holds its retouched contents between
canonical quotes. -/
theorem format_keeps_text {o : Options} {indent literal output : Text}
    (hind : Text.isBlank indent = true) (hok : (format o indent literal).result = .ok output)
    (hne : output ≠ literal) :
    ∃ opening contents edited, strip literal = .ok ⟨opening, contents⟩ ∧
      opening ∈ canonicalOpenings ∧
      Retouched (split o.abbreviations contents).1 contents edited ∧
      Text.squeeze output = opening ++ Text.squeeze edited ++ tripleDouble := by
  obtain rfl | ⟨opening, contents, hstrip, hcases⟩ := format_cases hok
  · exact absurd rfl hne
  · obtain ⟨q, hq, inner, -, rfl, rfl⟩ := strip_eq_ok hstrip
    have hopening := canonical_mem hq
    have hhead : ∀ c, inner.trim.head? = some c → Character.isBlank c = false :=
      fun c hc => Text.head?_trim hc
    obtain ⟨edited, hedited, hsqueeze⟩ := exists_retouched (o := o) hhead
    refine ⟨q.canonical, inner.trim, edited, hstrip, hopening, hedited, ?_⟩
    obtain ⟨hnil, rfl⟩ | ⟨-, -, n, -, rfl⟩ := hcases
    · have hempty : split o.abbreviations [] = ([], []) := rfl
      have hnormal : normalizeSummary o.nonCap [] = [] := by
        simp only [normalizeSummary]
        split <;> rfl
      have hsolid := Text.solid_append.mpr ⟨canonical_solid hopening, tripleDouble_solid⟩
      rw [hnil, hempty, hnormal] at hsqueeze
      rw [Text.squeeze_of_solid hsolid, hsqueeze]
      simp
    · rw [squeeze_rewritten hind hopening, hsqueeze]
      simp only [List.append_assoc]

theorem format_keeps_text_of_field :
    let o : Options := { wrapDescriptions := 20 }
    let literal := "R'''return\n  it  \n\n:param x: see https://a.b/c d e f g h\n'''".toList
    let output :=
      "r\"\"\"Return it.\n\n  :param x: see\n    https://a.b/c d\n    e f g h\n  \"\"\"".toList
    (format o [' ', ' '] literal).result = .ok output ∧ output ≠ literal ∧
      ∃ opening contents edited, strip literal = .ok ⟨opening, contents⟩ ∧
        opening ∈ canonicalOpenings ∧
        Retouched (split o.abbreviations contents).1 contents edited ∧
        Text.squeeze output = opening ++ Text.squeeze edited ++ tripleDouble := by
  intro o literal output
  have hok : (format o [' ', ' '] literal).result = .ok output := by decide +kernel
  have hne : output ≠ literal := by decide
  exact ⟨hok, hne, format_keeps_text (by decide) hok hne⟩

end DocstringFormat.Docstring
