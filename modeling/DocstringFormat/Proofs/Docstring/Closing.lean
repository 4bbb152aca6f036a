import DocstringFormat.Proofs.Character.Uppercase
import DocstringFormat.Proofs.Docstring.TextKept
import DocstringFormat.Proofs.Source.StringToken

/-!
Whether a formatted literal is one string again.

Every rewritten literal is an opening, a text without triple quotes, and three double quotes.  Such
a literal is one string exactly if the text does not dangle, that is, end in a quote or a backslash
that runs on into the closing quotes (`isString_literal_iff`).  Of all layouts only the one with the
closing quotes right after the summary can let a text dangle (`exists_rewritten_eq`), and formatting
does not look for it (`format_isString_iff`).
-/

set_option autoImplicit false

namespace DocstringFormat.Docstring

open Text (words)
open Source (IsString closingLength?)

/-- Whether a text ends in a backslash or a double quote that no backslash before it hides. -/
def dangles : Text → Bool
  | [] => false
  | [c] => c == '\\' || c == '"'
  | c :: d :: rest => if c = '\\' then dangles rest else dangles (d :: rest)

section Dangling

private theorem dangles_cons {c : Char} {s : Text} (hc : c ≠ '\\') (hs : s ≠ []) :
    dangles (c :: s) = dangles s := by
  cases s with
  | nil => exact absurd rfl hs
  | cons d rest => rw [dangles, if_neg hc]

private theorem dangles_append_blank {c : Char} (hc : Character.isBlank c = true) (s t : Text) :
    dangles (s ++ c :: t) = dangles t := by
  have hslash : c ≠ '\\' := by
    rintro rfl
    exact absurd hc (by decide)
  induction s using Source.escape_induction with
  | nil =>
    cases t with
    | nil => simp [dangles, hslash, ne_quote_of_blank hc]
    | cons d t => exact dangles_cons hslash (by simp)
  | lone => rfl
  | escape d s ih => exact ih
  | plain a s ha ih =>
    rw [List.cons_append, dangles_cons ha (by simp)]
    exact ih

private theorem dangles_append_of_ended {u : Text}
    (hu : ∀ c, u.getLast? = some c → Character.isBlank c = true) (w : Text) :
    dangles (u ++ w) = dangles w := by
  rcases List.eq_nil_or_concat' u with rfl | ⟨t, c, rfl⟩
  · rfl
  · rw [List.append_assoc]
    exact dangles_append_blank (hu c (by simp)) t w

private theorem dangles_blank_append {g : Text} (hg : Text.isBlank g = true) (s : Text) :
    dangles (g ++ s) = dangles s :=
  dangles_append_of_ended (fun c hc => List.all_eq_true.mp hg c (List.mem_of_getLast? hc)) s

private theorem dangles_eq_of_words {s t b : Text} (hb : Text.Solid b) (hne : b ≠ [])
    (h : words (s ++ b) = words (t ++ b)) : dangles s = dangles t := by
  obtain ⟨u, v, w, rfl, rfl, -, hu, hv⟩ := Text.exists_last_run_of_words hb hne h
  rw [dangles_append_of_ended hu, dangles_append_of_ended hv]

private theorem isPrefixOf_quote_iff {c : Char} {s : Text} (hfree : QuoteFree (c :: s)) :
    tripleDouble.isPrefixOf (c :: (s ++ tripleDouble)) = true ↔ c = '"' ∧ (s = [] ∨ s = ['"']) := by
  rw [quoteFree_iff] at hfree
  constructor
  · intro h
    match s with
    | [] =>
      obtain rfl : '"' = c := by simpa [tripleDouble] using h
      exact ⟨rfl, Or.inl rfl⟩
    | [d] =>
      obtain ⟨rfl, rfl⟩ : '"' = c ∧ '"' = d := by simpa [tripleDouble] using h
      exact ⟨rfl, Or.inr rfl⟩
    | d :: e :: rest =>
      obtain ⟨rfl, rfl, rfl⟩ : '"' = c ∧ '"' = d ∧ '"' = e := by simpa [tripleDouble] using h
      exact absurd ⟨[], rest, rfl⟩ hfree
  · rintro ⟨rfl, rfl | rfl⟩
    · rfl
    · rfl

private theorem closingLength?_tripleDouble {s : Text} (hfree : QuoteFree s) :
    closingLength? tripleDouble (s ++ tripleDouble) = some (s ++ tripleDouble).length ↔
      dangles s = false := by
  induction s using Source.escape_induction with
  | nil => decide
  | lone => decide
  | escape d s ih =>
    have hrest : QuoteFree s := hfree.of_isInfix ⟨['\\', d], [], by simp⟩
    have hdangles : dangles ('\\' :: d :: s) = dangles s := rfl
    rw [hdangles, ← ih hrest]
    simp [Source.closingLength?_escape]
  | plain c s hc ih =>
    have hrest : QuoteFree s := hfree.of_isInfix ⟨[c], [], by simp⟩
    rw [List.cons_append, Source.closingLength?_plain hc]
    by_cases hquote : tripleDouble.isPrefixOf (c :: (s ++ tripleDouble)) = true
    · -- The text ends in quotes, and these close it before the last three do.
      rw [if_pos hquote]
      obtain ⟨rfl, rfl | rfl⟩ := (isPrefixOf_quote_iff hfree).mp hquote
      · decide
      · decide
    · rw [if_neg hquote]
      have hdangles : dangles (c :: s) = dangles s := by
        by_cases hs : s = []
        · subst hs
          have hcq : c ≠ '"' := fun h => hquote ((isPrefixOf_quote_iff hfree).mpr ⟨h, Or.inl rfl⟩)
          simp [dangles, hc, hcq]
        · exact dangles_cons hc hs
      rw [hdangles, ← ih hrest]
      simp

private theorem isString_literal_iff {opening s : Text} (hopening : opening ∈ canonicalOpenings)
    (hfree : QuoteFree s) : IsString (opening ++ s ++ tripleDouble) ↔ dangles s = false := by
  have hall : ∀ p ∈ canonicalOpenings, ∃ q ∈ Opening.all, q.text = p ∧ q.quote = tripleDouble := by
    decide
  obtain ⟨q, hq, rfl, hquote⟩ := hall opening hopening
  rw [List.append_assoc, Source.isString_iff hq, hquote]
  exact closingLength?_tripleDouble hfree

end Dangling

section Layouts

variable {o : Options} {indent opening : Text}

theorem not_mem_uppercase {c d : Char} (hpos : 0 < d.toNat) (hlt : d.toNat < 65) (hc : c ≠ d) :
    d ∉ Character.uppercase c := by
  have hall : Character.casePairs.all (fun p => p.2.all fun n => 65 ≤ n) = true := by decide +kernel
  have hne : ∀ e ∈ Character.uppercase c, e ≠ d := by
    refine Character.forall_mem_uppercase (P := (· ≠ d)) hc ?_
    rintro p hp n hn rfl
    have hcode := List.all_eq_true.mp (List.all_eq_true.mp hall p hp) n hn
    have hmem := Character.toNat_ofNat_mem n
    simp only [List.mem_cons, List.not_mem_nil, or_false, decide_eq_true_eq] at hmem hcode
    omega
  exact fun hd => hne d hd rfl

private theorem quoteFree_append_of_not_mem {p s : Text} (hp : '"' ∉ p) (hs : QuoteFree s) :
    QuoteFree (p ++ s) := by
  induction p with
  | nil => exact hs
  | cons c p ih =>
    rw [List.mem_cons, not_or] at hp
    have hcons := quoteFree_append_cons (s := []) (t := p ++ s) (Ne.symm hp.1)
    exact hcons.mpr ⟨quoteFree_nil, ih hp.2⟩

theorem quoteFree_normalizeSummary (nonCap : List Text) {summary : Text} (h : QuoteFree summary) :
    QuoteFree (normalizeSummary nonCap summary) := by
  have htrim : QuoteFree summary.trimEnd :=
    h.of_isInfix (Text.dropEndWhile_isPrefix Character.isBlank summary).isInfix
  have hperiod : QuoteFree (addPeriod summary.trimEnd) := by
    unfold addPeriod
    split
    · exact (quoteFree_append_cons (by decide)).mpr ⟨htrim, quoteFree_nil⟩
    · exact htrim
  simp only [normalizeSummary]
  split
  · exact hperiod
  · cases hs : addPeriod summary.trimEnd with
    | nil => exact quoteFree_nil
    | cons c rest =>
      rw [hs] at hperiod
      by_cases hc : c = '"'
      · subst hc
        exact hperiod
      · have hrest : QuoteFree rest := hperiod.of_isInfix ⟨[c], [], by simp⟩
        exact quoteFree_append_of_not_mem (not_mem_uppercase (by decide) (by decide) hc)
          hrest

theorem exists_wrapped_eq (hind : Text.isBlank indent = true)
    (hopening : opening ∈ canonicalOpenings) (s : Text) (columns : Nat) :
    ∃ body, wrapSummary (opening ++ s ++ tripleDouble) indent indent columns =
        opening ++ body ++ tripleDouble ∧
      words body = words s ∧ words (body ++ tripleDouble) = words (s ++ tripleDouble) := by
  by_cases hzero : columns = 0
  · refine ⟨s, ?_, rfl, rfl⟩
    rw [wrapSummary, if_pos hzero]
  · have hwords := words_wrapSummary hind hind (opening ++ s ++ tripleDouble) columns
    rw [List.append_assoc] at hwords
    have hfirst : ∀ c,
        (wrapSummary (opening ++ (s ++ tripleDouble)) indent indent columns).head? = some c →
          Character.isBlank c = false := by
      intro c hc
      rw [wrapSummary, if_neg hzero] at hc
      exact Text.head?_trim hc
    obtain ⟨rest, hrest, hsame⟩ :=
      Text.exists_eq_append_of_words' (canonical_solid hopening) (canonical_ne_nil hopening) hfirst
        hwords
    have hlast : ∀ c, rest.getLast? = some c → Character.isBlank c = false := by
      intro c hc
      have hend : (opening ++ rest).getLast? = some c := by
        rw [List.getLast?_append, hc]
        rfl
      rw [← hrest, wrapSummary, if_neg hzero] at hend
      exact Text.getLast?_trimEnd hend
    obtain ⟨body, rfl, hbody⟩ :=
      Text.exists_eq_append_of_words tripleDouble_solid (by decide) hlast hsame
    refine ⟨body, ?_, hbody, hsame⟩
    rw [List.append_assoc, hrest, List.append_assoc]

/-- Whether a literal of a summary alone closes on the last line of the summary. -/
def closesAfterSummary (o : Options) (indent quotes summary : Text) (compensation : Nat) : Bool :=
  let columns := o.wrapSummaries - compensation
  let line := wrapSummary (quotes ++ summary ++ tripleDouble) indent indent columns
  !o.makeSummaryMultiLine && !(o.closeQuotesOnNewline && line.contains '\n')

/-- Whether the closing quotes of a rewritten literal come right after a summary that dangles. -/
def runsOn (o : Options) (indent opening contents : Text) (compensation : Nat) : Bool :=
  let (summary, description) := split o.abbreviations contents
  let summary := normalizeSummary o.nonCap summary
  description.isEmpty &&
    (closesAfterSummary o indent (openingQuotes o opening) summary compensation && dangles summary)

private theorem closes_on_own_line (hind : Text.isBlank indent = true) {s : Text}
    (hs : QuoteFree s) :
    QuoteFree (s ++ '\n' :: indent) ∧ dangles (s ++ '\n' :: indent) = false := by
  constructor
  · refine (quoteFree_append_cons (by decide)).mpr ⟨hs, quoteFree_of_words ?_⟩
    rw [Text.words_of_blank hind]
    simp
  · rw [dangles_append_blank (by decide), ← List.append_nil indent, dangles_blank_append hind]
    rfl

theorem exists_openingQuotes_eq (o : Options) (opening : Text) :
    ∃ gap, Text.isBlank gap = true ∧ openingQuotes o opening = opening ++ gap := by
  unfold openingQuotes
  split
  · exact ⟨[' '], by decide, rfl⟩
  · exact ⟨[], rfl, by simp⟩

variable {gap summary description : Text} {n : Nat}

private theorem exists_layoutSummary_eq (hind : Text.isBlank indent = true)
    (hopening : opening ∈ canonicalOpenings) (hgap : Text.isBlank gap = true)
    (hsummary : QuoteFree summary) :
    ∃ body, layoutSummary o indent (opening ++ gap) summary n = opening ++ body ++ tripleDouble ∧
      QuoteFree body ∧
      dangles body = (closesAfterSummary o indent (opening ++ gap) summary n && dangles summary) := by
  obtain ⟨body, hline, hbody, hsame⟩ :=
    exists_wrapped_eq hind hopening (gap ++ summary) (o.wrapSummaries - n)
  rw [Text.words_blank_append hgap] at hbody
  have hfree : QuoteFree body := (quoteFree_congr_words hbody).mpr hsummary
  have hquotes : opening ++ gap ++ summary ++ tripleDouble =
      opening ++ (gap ++ summary) ++ tripleDouble := by
    simp only [List.append_assoc]
  simp only [layoutSummary, closesAfterSummary, hquotes, hline]
  cases o.makeSummaryMultiLine with
  | true =>
    have hlead : Text.isBlank (gap ++ ['\n'] ++ indent) = true := by
      rw [Text.isBlank_append, Text.isBlank_append, hgap, hind]
      rfl
    have hwords : words (gap ++ ['\n'] ++ indent ++
        wrapSummary summary indent indent (o.wrapSummaries - n)) = words summary := by
      rw [Text.words_blank_append hlead, words_wrapSummary hind hind]
    obtain ⟨hclosed, hdangles⟩ :=
      closes_on_own_line hind ((quoteFree_congr_words hwords).mpr hsummary)
    refine ⟨_, ?_, hclosed, hdangles⟩
    simp
  | false =>
    cases o.closeQuotesOnNewline && (opening ++ body ++ tripleDouble).contains '\n' with
    | true =>
      obtain ⟨hclosed, hdangles⟩ := closes_on_own_line hind hfree
      have hbefore : Text.before? tripleDouble (opening ++ body ++ tripleDouble) =
          some (opening ++ body) := Text.before?_eq_some.mpr rfl
      refine ⟨_, ?_, hclosed, hdangles⟩
      rw [hbefore]
      simp
    | false =>
      -- Only here does the summary stand right before the closing quotes.
      refine ⟨body, rfl, hfree, ?_⟩
      rw [dangles_eq_of_words tripleDouble_solid (by decide) hsame, dangles_blank_append hgap]
      rfl

private theorem exists_layoutWithDescription_eq (hind : Text.isBlank indent = true)
    (hgap : Text.isBlank gap = true) (hsummary : QuoteFree summary)
    (hdescription : QuoteFree description) :
    ∃ body, layoutWithDescription o indent (opening ++ gap) summary description n =
        opening ++ body ++ tripleDouble ∧
      QuoteFree body ∧ dangles body = false := by
  have hinitial := isBlank_summaryLead hind o.preSummaryNewline
  have hlead : Text.isBlank (gap ++ if o.preSummaryNewline then '\n' :: indent else []) = true := by
    rw [Text.isBlank_append, hgap]
    split
    · exact hind
    · rfl
  have hafter : Text.isBlank (if o.postDescriptionBlank then ['\n'] else []) = true := by
    split <;> rfl
  have hfirst : QuoteFree (wrapSummary summary
      (if o.preSummaryNewline then indent else indent ++ [' ', ' ', ' ']) indent
      (o.wrapSummaries - n)) :=
    (quoteFree_congr_words (words_wrapSummary hinitial hind _ _)).mpr hsummary
  have hbody : QuoteFree (wrapDescription (descriptionOptions o n) description indent) :=
    (carries_wrapDescription hind (descriptionOptions o n) description).quoteFree hdescription _
      (by simp)
  generalize hone : wrapSummary summary
    (if o.preSummaryNewline then indent else indent ++ [' ', ' ', ' ']) indent
    (o.wrapSummaries - n) = first at hfirst
  generalize htwo : wrapDescription (descriptionOptions o n) description indent = body at hbody
  simp only [layoutWithDescription, hone, htwo]
  generalize (if o.preSummaryNewline then '\n' :: indent else []) = lead at hlead
  generalize (if o.postDescriptionBlank then ['\n'] else []) = after at hafter
  have hwords : words (gap ++ lead ++ (first ++ ['\n', '\n'] ++ (body ++ after))) =
      words first ++ words body := by
    rw [Text.words_blank_append hlead, Text.words_append_blanks first (by simp) (by decide),
      Text.words_append_of_blank body hafter]
  obtain ⟨hclosed, hdangles⟩ := closes_on_own_line hind
    ((quoteFree_iff_of_words_append hwords).mpr ⟨hfirst, hbody⟩)
  refine ⟨_, ?_, hclosed, hdangles⟩
  simp

theorem exists_rewritten_eq (hind : Text.isBlank indent = true)
    (hopening : opening ∈ canonicalOpenings) {contents : Text} (hfree : QuoteFree contents) :
    ∃ body, rewritten o indent opening contents n = opening ++ body ++ tripleDouble ∧
      QuoteFree body ∧ dangles body = runsOn o indent opening contents n := by
  obtain ⟨gap, hgap, hquotes⟩ := exists_openingQuotes_eq o opening
  obtain ⟨hsummary, hdescription⟩ :=
    (quoteFree_iff_of_words_append (words_split o.abbreviations contents)).mp hfree
  have hnormal := quoteFree_normalizeSummary o.nonCap hsummary
  simp only [rewritten, runsOn, hquotes]
  cases List.isEmpty (split o.abbreviations contents).2 with
  | true => exact exists_layoutSummary_eq hind hopening hgap hnormal
  | false => exact exists_layoutWithDescription_eq hind hgap hnormal hdescription

end Layouts

theorem quoteFree_of_leaveReason {o : Options} {contents : Text}
    (h : leaveReason? o contents = none) : QuoteFree contents := by
  by_contra hquotes
  simp [leaveReason?, QuoteFree] at h hquotes
  simp [hquotes] at h

/-- A string is formatted to a string exactly if the tabs of its indentation can be compensated for
and no summary of it runs on into the closing quotes.  Strings that are left alone, and strings
without contents, always are. -/
theorem format_isString_iff {o : Options} {indent literal : Text}
    (hind : Text.isBlank indent = true) (hstring : IsString literal) :
    (∃ output, (format o indent literal).result = .ok output ∧ IsString output) ↔
      ∀ opening contents, strip literal = .ok ⟨opening, contents⟩ → contents ≠ [] →
        leaveReason? o contents = none →
        ∃ n, tabCompensation o indent = .ok n ∧ runsOn o indent opening contents n = false := by
  rw [result_format]
  cases hstrip : strip literal with
  | error cause => simp [hstring]
  | ok stripped =>
    obtain ⟨opening, contents⟩ := stripped
    obtain ⟨q, hq, -, -, rfl, -⟩ := strip_eq_ok hstrip
    have hopening := canonical_mem hq
    by_cases hempty : contents = []
    · have hclosed : IsString (q.canonical ++ tripleDouble) := by
        have hnil := (isString_literal_iff hopening quoteFree_nil).mpr rfl
        rwa [List.append_nil] at hnil
      constructor
      · rintro - opening' contents' hsame hne
        cases hsame
        exact absurd hempty hne
      · intro _
        exact ⟨_, if_pos hempty, hclosed⟩
    · simp only [if_neg hempty]
      cases hleave : leaveReason? o contents with
      | some reason =>
        constructor
        · rintro - opening' contents' hsame - hnone
          cases hsame
          cases hleave.symm.trans hnone
        · intro _
          exact ⟨literal, rfl, hstring⟩
      | none =>
        have hfree := quoteFree_of_leaveReason hleave
        have hread : ∀ n, IsString (rewritten o indent q.canonical contents n) ↔
            runsOn o indent q.canonical contents n = false := by
          intro n
          obtain ⟨body, hbody, hbodyFree, hdangles⟩ := exists_rewritten_eq hind hopening hfree
          rw [hbody, isString_literal_iff hopening hbodyFree, hdangles]
        constructor
        · rintro ⟨output, hok, hout⟩ opening' contents' hsame - -
          cases hsame
          cases hn : tabCompensation o indent with
          | error fault =>
            rw [hn] at hok
            cases hok
          | ok n =>
            rw [hn] at hok
            cases hok
            exact ⟨n, rfl, (hread n).mp hout⟩
        · intro hruns
          obtain ⟨n, hn, hrun⟩ := hruns q.canonical contents rfl hempty hleave
          exact ⟨_, by rw [hn]; rfl, (hread n).mpr hrun⟩

/-- The backslash that hides a blank comes to stand before the closing quotes. -/
theorem format_hides_closing_quote :
    let literal := "'''foo\\ '''".toList
    let output := "\"\"\"Foo\\\"\"\"".toList
    IsString literal ∧ (format {} [] literal).result = .ok output ∧ ¬ IsString output := by
  intro literal output
  have hstring : IsString literal :=
    (Source.isString_iff (o := ⟨[], tripleSingle⟩) (by simp [Opening.all]) "foo\\ '''".toList).mpr
      (by decide)
  have hok : (format {} [] literal).result = .ok output := by decide +kernel
  refine ⟨hstring, hok, ?_⟩
  intro hout
  have hstrip : strip literal = .ok ⟨tripleDouble, "foo\\".toList⟩ := rfl
  obtain ⟨n, hn, hrun⟩ := (format_isString_iff rfl hstring).mp ⟨output, hok, hout⟩ _ _ hstrip
    (by decide) (by decide +kernel)
  obtain rfl : 0 = n := Except.ok.inj hn
  have hruns : runsOn {} [] tripleDouble "foo\\".toList 0 = true := by decide +kernel
  rw [hruns] at hrun
  cases hrun

end DocstringFormat.Docstring
