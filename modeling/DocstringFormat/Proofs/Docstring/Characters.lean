import DocstringFormat.Proofs.Docstring.Closing
import DocstringFormat.Proofs.Docstring.Lines

/-!
Which characters a formatted literal has.

Apart from those of the literal and its indentation, formatting writes spaces, line feeds, double
quotes, a period, a mark in a small letter and uppercase forms.  So a class of characters that has
all of these holds every character of what comes out if it holds those that go in
(`over_of_format`).  Double quotes are neither lost nor added inside the literal, so no literal is
formatted to a beginning of itself or to a continuation of itself (`format_eq_of_append`).
-/

set_option autoImplicit false

namespace DocstringFormat.Docstring

open Text (Over over_nil over_cons over_append over_join over_unlines)
open Markup (Span Link)

structure Admits (P : Char → Prop) : Prop where
  space : P ' '
  newline : P '\n'
  quote : P '"'
  period : P '.'
  marks : P 'r' ∧ P 'u'
  upper : ∀ c, P c → Over P (Character.uppercase c)

section Lines

variable {P : Char → Prop} {s indent : Text} (hP : Admits P)

include hP

private theorem over_fillParagraph (h : Over P s) (hindent : Over P indent) (columns : Nat) :
    ∀ l ∈ fillParagraph indent columns s, Over P l :=
  (h.dedent hP.newline).fill hP.space hindent hindent columns

omit hP in
private theorem over_reindentLines (h : Over P s) (hindent : Over P indent) :
    ∀ l ∈ reindentLines indent s, Over P l := by
  have hbody : Over P ((Text.after? ['\n'] s).getD s) := by
    cases hafter : Text.after? ['\n'] s with
    | none => exact h
    | some rest => exact h.after? hafter
  intro l hl
  obtain ⟨line, hline, rfl⟩ := List.mem_map.mp hl
  split
  · exact over_nil
  · exact over_append.mpr ⟨hindent, (hbody.lines line hline).trim⟩

private theorem over_wrapField {name body : Text} (hname : Over P name) (hbody : Over P body)
    (hindent : Over P indent) (columns : Nat) :
    ∀ l ∈ wrapField name body indent columns, Over P l := by
  have hdeeper : Over P (continuationIndent indent) := by
    unfold continuationIndent
    split
    · refine over_append.mpr ⟨hindent, ?_⟩
      intro c hc
      rw [List.eq_of_mem_replicate hc]
      exact hP.space
    · exact over_append.mpr ⟨hindent, hindent⟩
  have hfill := (over_append.mpr ⟨hname, hbody⟩).fill hP.space hindent hdeeper columns
  unfold wrapField
  dsimp only
  split
  · simp
  · rename_i first rest hlines
    rw [hlines] at hfill
    intro l hl
    rcases List.mem_cons.mp hl with rfl | hl
    · exact over_append.mpr ⟨hindent, (hfill first (by simp)).unwrap hP.space⟩
    · obtain ⟨line, hline, rfl⟩ := List.mem_map.mp hl
      exact over_append.mpr ⟨hdeeper, (hfill line (List.mem_cons_of_mem _ hline)).unwrap hP.space⟩

private theorem over_joinBody (h : Over P s) : Over P (joinBody s) := by
  have hunwrap := h.unwrap hP.space
  unfold joinBody
  split
  · exact over_nil
  · rename_i c rest hs
    rw [hs] at hunwrap
    split
    · exact hunwrap
    · exact over_cons.mpr ⟨hP.space, hunwrap⟩

private theorem over_linkLine {link : Text} (h : Over P link) (hindent : Over P indent) :
    Over P (linkLine indent link) := by
  refine over_append.mpr ⟨hindent, over_join (by simpa using hP.space) ?_⟩
  intro l hl
  obtain ⟨line, hline, rfl⟩ := List.mem_map.mp hl
  exact (h.lines line hline).trim

private theorem over_descriptionLines (h : Over P s) (hindent : Over P indent) (columns : Nat)
    (style : Markup.Style) : ∀ l ∈ descriptionLines s indent columns style, Over P l := by
  have hspan : ∀ span : Span, Over P (span.of s) := fun span => h.extract _ _
  have hlink : ∀ link : Link, Over P (linkLine indent (link.span.of s)) :=
    fun link => over_linkLine hP (hspan link.span) hindent
  refine LineProperty.of_mem_descriptionLines ?_
  constructor
  case empty => exact over_nil
  case filled => exact fun p hp => over_fillParagraph hP (h.subset hp) hindent columns
  case closing => exact fun p hp => over_reindentLines (h.subset hp) hindent
  case link => exact fun link _ => hlink link
  case quoted =>
    intro link _
    simp [hindent, hP.quote, (hlink link).trimStart]
  case stripped => exact fun line hline => (over_append.mp hline).1.trimEnd
  case name =>
    intro span _
    simp [hindent, hspan span, hP.newline]
  case field =>
    intro span _ p hp
    exact over_append.mpr ⟨over_append.mpr ⟨hindent, hspan span⟩, over_joinBody hP (h.subset hp)⟩
  case wrapped =>
    intro span _ p hp
    exact over_wrapField hP (hspan span) (over_joinBody hP (h.subset hp)) hindent columns

end Lines

section Literals

variable {P : Char → Prop} {s indent : Text} (hP : Admits P)

include hP

theorem over_wrapDescription (h : Over P s) (hindent : Over P indent) (o : DescriptionOptions) :
    Over P (wrapDescription o s indent) := by
  have hdrop := h.dropLeadingBlankLines hP.newline
  have hlaid := (hdrop.reindent hindent hP.space hP.newline).trimEnd
  rcases wrapDescription_cases o s indent with ⟨-, heq⟩ | ⟨t, rfl, heq | heq⟩
  · rw [heq]
    exact hdrop
  · rw [heq]
    exact hlaid
  · rw [heq]
    exact over_append.mpr ⟨hindent, Over.trim (over_unlines hP.newline
      (over_descriptionLines hP hlaid hindent _ _))⟩

omit hP in
private theorem over_shortestIndentation {ls : List Text} (h : ∀ l ∈ ls, Over P l) :
    Over P (Text.shortestIndentation ls) := by
  have hleads : ∀ l ∈ (ls.filter (fun line => !Text.isBlank line)).map Text.leadingBlanks,
      Over P l := by
    intro l hl
    obtain ⟨line, hline, rfl⟩ := List.mem_map.mp hl
    exact (h line (List.mem_filter.mp hline).1).subset ( List.takeWhile_prefix _).subset
  unfold Text.shortestIndentation
  dsimp only
  split
  · exact over_nil
  · rename_i first rest hlist
    rw [hlist] at hleads
    have hfirst := hleads first (by simp)
    have hrest : ∀ l ∈ rest, Over P l := fun l hl => hleads l (List.mem_cons_of_mem first hl)
    clear hlist hleads
    induction rest generalizing first with
    | nil => exact hfirst
    | cons l rest ih =>
      refine ih _ ?_ (fun m hm => hrest m (List.mem_cons_of_mem l hm))
      dsimp only
      split
      · exact hrest l (by simp)
      · exact hfirst

theorem over_split (h : Over P s) (abbreviations : List Text) :
    Over P (split abbreviations s).1 ∧ Over P (split abbreviations s).2 := by
  unfold split
  split
  · rename_i summary description hsplit
    have hlines := h.trimEnd.lines
    rw [splitLines?_eq_some hsplit] at hlines
    refine ⟨Over.trim (over_unlines hP.newline ?_), Over.trimEnd (over_unlines hP.newline ?_)⟩
    · exact fun l hl => hlines l (List.mem_append_left _ hl)
    · exact fun l hl => hlines l (List.mem_append_right _ hl)
  · have hspec := firstSentenceFrom_spec abbreviations [] s
    rw [firstSentence]
    generalize firstSentenceFrom abbreviations [] s = parts at hspec
    obtain ⟨sentence, rest⟩ := parts
    dsimp only at hspec ⊢
    split
    · rename_i hboth
      have hne : rest ≠ [] := by
        rintro rfl
        simp [Text.isBlank] at hboth
      have hparts := (hspec hne).1
      rw [List.reverse_nil, List.nil_append] at hparts
      rw [← hparts, over_append] at h
      refine ⟨h.1.trim, over_append.mpr ⟨over_shortestIndentation ?_, h.2.trim⟩⟩
      exact fun l hl => h.2.lines l (List.mem_of_mem_drop hl)
    · exact ⟨h, over_nil⟩

theorem over_normalizeSummary (h : Over P s) (nonCap : List Text) :
    Over P (normalizeSummary nonCap s) := by
  have hperiod : Over P (addPeriod s.trimEnd) := by
    unfold addPeriod
    split
    · simp [h.trimEnd, hP.period]
    · exact h.trimEnd
  simp only [normalizeSummary]
  split
  · exact hperiod
  · cases hs : addPeriod s.trimEnd with
    | nil => exact over_nil
    | cons c rest =>
      rw [hs, over_cons] at hperiod
      exact over_append.mpr ⟨hP.upper c hperiod.1, hperiod.2⟩

theorem over_wrapSummary {initial subsequent : Text} (h : Over P s) (hinitial : Over P initial)
    (hsubsequent : Over P subsequent) (columns : Nat) :
    Over P (wrapSummary s initial subsequent columns) := by
  unfold wrapSummary
  split
  · exact h
  · exact Over.trim (over_unlines hP.newline
      ((h.unwrap hP.space).fill hP.space hinitial hsubsequent columns))

private theorem over_layoutSummary {opening : Text} (h : Over P s) (hindent : Over P indent)
    (hopening : Over P opening) (o : Options) (n : Nat) :
    Over P (layoutSummary o indent opening s n) := by
  have hclosing : Over P tripleDouble := by
    simp [tripleDouble, hP.quote]
  have hline := over_wrapSummary hP (over_append.mpr ⟨over_append.mpr ⟨hopening, h⟩, hclosing⟩)
    hindent hindent (o.wrapSummaries - n)
  have halone := over_wrapSummary hP h hindent hindent (o.wrapSummaries - n)
  unfold layoutSummary
  dsimp only
  split
  · simp [hopening, hindent, hclosing, hP.newline, halone]
  · split
    · have hbody : Over P ((Text.before? tripleDouble (wrapSummary (opening ++ s ++ tripleDouble)
          indent indent (o.wrapSummaries - n))).getD (wrapSummary (opening ++ s ++ tripleDouble)
            indent indent (o.wrapSummaries - n))) := by
        cases hbefore : Text.before? tripleDouble (wrapSummary (opening ++ s ++ tripleDouble)
            indent indent (o.wrapSummaries - n)) with
        | none => exact hline
        | some rest => exact hline.before? hbefore
      simp only [over_append, over_cons, over_nil]
      exact ⟨⟨⟨hbody, hP.newline, trivial⟩, hindent⟩, hclosing⟩
    · exact hline

private theorem over_layoutWithDescription {opening description : Text} (h : Over P s)
    (hdescription : Over P description) (hindent : Over P indent) (hopening : Over P opening)
    (o : Options) (n : Nat) : Over P (layoutWithDescription o indent opening s description n) := by
  have hinitial : Over P (if o.preSummaryNewline then indent else indent ++ [' ', ' ', ' ']) := by
    split
    · exact hindent
    · simp [hindent, hP.space]
  have hlead : Over P (if o.preSummaryNewline then '\n' :: indent else []) := by
    split
    · exact over_cons.mpr ⟨hP.newline, hindent⟩
    · exact over_nil
  have hafter : Over P (if o.postDescriptionBlank then ['\n'] else []) := by
    split <;> simp [hP.newline]
  have hfirst := over_wrapSummary hP h hinitial hindent (o.wrapSummaries - n)
  have hbody := over_wrapDescription hP hdescription hindent (descriptionOptions o n)
  simp [layoutWithDescription, hopening, hlead, hfirst, hbody, hafter, hindent, hP.newline,
    tripleDouble, hP.quote]

private theorem over_rewritten {opening contents : Text} (h : Over P contents)
    (hindent : Over P indent)
    (hopening : Over P opening) (o : Options) (n : Nat) :
    Over P (rewritten o indent opening contents n) := by
  have hquotes : Over P (openingQuotes o opening) := by
    unfold openingQuotes
    split
    · simp [hopening, hP.space]
    · exact hopening
  obtain ⟨hsummary, hdescription⟩ := over_split hP h o.abbreviations
  have hnormal := over_normalizeSummary hP hsummary o.nonCap
  simp only [rewritten]
  split
  · exact over_layoutSummary hP hnormal hindent hquotes o n
  · exact over_layoutWithDescription hP hnormal hdescription hindent hquotes o n

/-- Every character of a formatted literal is in a class that has those of the literal, of the
indentation, and all that formatting writes. -/
theorem over_of_format {o : Options} {literal output : Text} (h : Over P literal)
    (hindent : Over P indent) (hok : (format o indent literal).result = .ok output) :
    Over P output := by
  rcases format_cases hok with rfl | ⟨opening, contents, hstrip, hcases⟩
  · exact h
  · obtain ⟨q, hq, inner, hliteral, rfl, rfl⟩ := strip_eq_ok hstrip
    have hopening : Over P q.canonical := by
      have hall : canonicalOpenings.all (fun p => p.all fun c => ['"', 'r', 'u'].contains c) = true := by
        decide
      intro c hc
      have hmem := List.all_eq_true.mp (List.all_eq_true.mp hall _ (canonical_mem hq)) c hc
      rw [List.contains_iff_mem] at hmem
      simp only [List.mem_cons, List.not_mem_nil, or_false] at hmem
      rcases hmem with rfl | rfl | rfl
      · exact hP.quote
      · exact hP.marks.1
      · exact hP.marks.2
    have hinner : Over P inner.trim := by
      have htrim := h.trim
      rw [hliteral, over_append, over_append] at htrim
      exact htrim.1.2.trim
    rcases hcases with ⟨-, rfl⟩ | ⟨-, -, n, -, rfl⟩
    · simp [hopening, tripleDouble, hP.quote]
    · exact over_rewritten hP hinner hindent hopening o n

omit hP in
theorem admits_ne_return : Admits (· ≠ '\r') := by
  refine ⟨by decide, by decide, by decide, by decide, by decide, ?_⟩
  intro c hc d hd hreturn
  rw [hreturn] at hd
  exact not_mem_uppercase (by decide) (by decide) hc hd

omit hP in
/-- No formatted literal has a carriage return that neither the literal nor its indentation has. -/
theorem return_not_mem_format {o : Options} {literal output : Text} (h : '\r' ∉ literal)
    (hindent : '\r' ∉ indent) (hok : (format o indent literal).result = .ok output) :
    '\r' ∉ output := by
  have hover := over_of_format admits_ne_return (fun c hc hreturn => h (hreturn ▸ hc))
    (fun c hc hreturn => hindent (hreturn ▸ hc)) hok
  exact fun hmem => hover _ hmem rfl

end Literals

section Quotes

open Text (words)

variable {o : Options} {indent literal output : Text}

private theorem count_eq_of_words {c : Char} (hc : Character.isBlank c = false) {s t : Text}
    (h : words s = words t) : s.count c = t.count c := by
  have hsqueeze : ∀ u : Text, (Text.squeeze u).count c = u.count c :=
    fun u => List.count_filter (by simp [hc])
  rw [← hsqueeze s, ← hsqueeze t, Text.squeeze_eq_of_words h]

private theorem count_capitalize (s : Text) : (capitalize s).count '"' = s.count '"' := by
  cases s with
  | nil => rfl
  | cons c rest =>
    rw [capitalize, List.count_append]
    by_cases hc : c = '"'
    · have hself : Character.uppercase '"' = ['"'] := by decide +kernel
      rw [hc, hself, ← List.count_append]
      rfl
    · rw [List.count_eq_zero_of_not_mem (not_mem_uppercase (by decide) (by decide) hc),
        List.count_cons_of_ne hc, Nat.zero_add]

private theorem count_normalizeSummary (nonCap : List Text) (s : Text) :
    (normalizeSummary nonCap s).count '"' = s.count '"' := by
  have hperiod : (addPeriod s.trimEnd).count '"' = s.count '"' := by
    have htrim : s.trimEnd.count '"' = s.count '"' :=
      count_eq_of_words (by decide) (Text.words_trimEnd s)
    unfold addPeriod
    split
    · rw [List.count_append, htrim]
      rfl
    · exact htrim
  simp only [normalizeSummary]
  split
  · exact hperiod
  · rw [count_capitalize, hperiod]

private theorem count_rewritten {opening contents : Text} (hind : Text.isBlank indent = true)
    (hopening : opening ∈ canonicalOpenings) (n : Nat) :
    (rewritten o indent opening contents n).count '"' =
      opening.count '"' + contents.count '"' + 3 := by
  have hsqueeze : ∀ u : Text, (Text.squeeze u).count '"' = u.count '"' :=
    fun u => List.count_filter (by decide)
  have hcontents : contents.count '"' =
      (split o.abbreviations contents).1.count '"' +
        (split o.abbreviations contents).2.count '"' := by
    have hwords := congrArg List.flatten (words_split o.abbreviations contents)
    rw [List.flatten_append, Text.flatten_words, Text.flatten_words, Text.flatten_words] at hwords
    have hcount := congrArg (List.count '"') hwords
    rwa [List.count_append, hsqueeze, hsqueeze, hsqueeze] at hcount
  have hthree : tripleDouble.count '"' = 3 := rfl
  rw [← hsqueeze, squeeze_rewritten hind hopening, List.count_append, List.count_append,
    List.count_append, hsqueeze, hsqueeze, count_normalizeSummary, hthree, hcontents]
  omega

theorem trim_eq_self {s : Text} (hhead : ∀ c, s.head? = some c → Character.isBlank c = false)
    (hlast : ∀ c, s.getLast? = some c → Character.isBlank c = false) : s.trim = s := by
  have hstart : s.trimStart = s := by
    cases s with
    | nil => rfl
    | cons c rest => exact List.dropWhile_cons_of_neg (by simp [hhead c rfl])
  rw [Text.trim, hstart]
  rcases List.eq_nil_or_concat' s with rfl | ⟨u, c, rfl⟩
  · rfl
  · have hc := hlast c (by simp)
    rw [Text.trimEnd, Text.dropEndWhile, List.reverse_append, List.reverse_singleton,
      List.singleton_append, List.dropWhile_cons_of_neg (by simp [hc])]
    simp

/-- A formatted literal neither begins the literal nor begins with it, unless it is the literal. -/
theorem format_eq_of_append {a b : Text} (hind : Text.isBlank indent = true)
    (hhead : ∀ c, literal.head? = some c → Character.isBlank c = false)
    (hlast : ∀ c, literal.getLast? = some c → Character.isBlank c = false)
    (hok : (format o indent literal).result = .ok output) (h : output ++ a = literal ++ b) :
    output = literal := by
  rcases format_cases hok with heq | ⟨opening, contents, hstrip, hcases⟩
  · exact heq
  obtain ⟨q, hq, inner, hliteral, rfl, rfl⟩ := strip_eq_ok hstrip
  rw [trim_eq_self hhead hlast] at hliteral
  have hcanonical := canonical_mem hq
  -- Both end in three double quotes, and both have as many of them.
  obtain ⟨body, hbody⟩ : ∃ body, output = q.canonical ++ body ++ tripleDouble := by
    rcases hcases with ⟨-, rfl⟩ | ⟨-, hleave, n, -, rfl⟩
    · exact ⟨[], by simp⟩
    · obtain ⟨body, hbody, -⟩ := exists_rewritten_eq hind hcanonical (quoteFree_of_leaveReason hleave)
      exact ⟨body, hbody⟩
  have hcount : output.count '"' = q.canonical.count '"' + inner.count '"' + 3 := by
    have htrim : inner.trim.count '"' = inner.count '"' :=
      count_eq_of_words (by decide) (Text.words_trim inner)
    rcases hcases with ⟨hnil, rfl⟩ | ⟨-, -, n, -, rfl⟩
    · rw [hnil] at htrim
      rw [← htrim, List.count_append]
      rfl
    · rw [count_rewritten hind hcanonical, htrim]
  -- An opening that changes already tells the two apart.
  have hopening : q.text = q.canonical ∧ q.quote = tripleDouble := by
    have hall : ∀ p ∈ Opening.all, p.text = p.canonical ∧ p.quote = tripleDouble ∨
        p.text.isPrefixOf p.canonical = false ∧ p.canonical.isPrefixOf p.text = false := by
      decide
    rcases hall q hq with hsame | ⟨hleft, hright⟩
    · exact hsame
    · exfalso
      rw [hbody, hliteral] at h
      simp only [List.append_assoc] at h
      rcases List.append_eq_append_iff.mp h with ⟨v, hv, -⟩ | ⟨v, hv, -⟩
      · rw [Bool.eq_false_iff, ne_eq, List.isPrefixOf_iff_prefix] at hright
        exact hright ⟨v, hv.symm⟩
      · rw [Bool.eq_false_iff, ne_eq, List.isPrefixOf_iff_prefix] at hleft
        exact hleft ⟨v, hv.symm⟩
  have hsame : output.count '"' = literal.count '"' := by
    rw [hcount, hliteral, hopening.1, hopening.2, List.count_append, List.count_append]
    rfl
  have hquote : ∀ {u v w : Text}, u ++ v = w ++ tripleDouble →
      (u ++ v).count '"' = u.count '"' → v = [] := by
    intro u v w hends hnone
    by_contra hne
    rw [List.count_append] at hnone
    have hzero : v.count '"' = 0 := by omega
    have hmem : '"' ∈ v := by
      have hgetLast := congrArg List.getLast? hends
      rw [List.getLast?_append_of_ne_nil u hne] at hgetLast
      exact List.mem_of_getLast? (hgetLast.trans (by simp [tripleDouble]))
    exact absurd hzero (List.count_pos_iff.mpr hmem).ne'
  rcases List.append_eq_append_iff.mp h with ⟨v, hv, -⟩ | ⟨v, hv, -⟩
  · have hnil : v = [] := by
      refine hquote (u := output) (w := q.text ++ inner) ?_ ?_
      · rw [← hv, hliteral, hopening.2]
      · rw [← hv, hsame]
    rw [hv, hnil, List.append_nil]
  · have hnil : v = [] := by
      refine hquote (u := literal) (w := q.canonical ++ body) ?_ ?_
      · rw [← hv, hbody]
      · rw [← hv, hsame]
    rw [hv, hnil, List.append_nil]

end Quotes

end DocstringFormat.Docstring
