import DocstringFormat.Proofs.Docstring.LineBreaks
import Mathlib.Data.List.TakeWhile

/-!
Reading a laid-out docstring again.

A literal with a description is laid out from three parts: opening quotes, a wrapped summary and a
wrapped description (`parts?`).  The empty line that is written between the last two is where the
contents are split again (`parts_are_read_again`), unless a line feed in the indentation has put
another one into the summary (`summary_broken_by_indentation`).
-/

set_option autoImplicit false

namespace DocstringFormat.Docstring

open Text (Over Plain Unbroken Trimmed)

section Reading

structure Framed (summary description : Text) : Prop where
  trimmed : Trimmed summary
  ne_nil : description ≠ []
  last : ∀ c, description.getLast? = some c → Character.isBlank c = false

/-- Moreover no line of the summary is blank, and every line feed is a plain one. -/
structure Readable (summary description : Text) : Prop extends Framed summary description where
  unbroken : Unbroken summary
  plain_summary : Plain summary
  plain_description : Plain description

variable {summary description : Text}

theorem Framed.trimmed_contents (h : Framed summary description) :
    Trimmed (summary ++ ['\n', '\n'] ++ description) where
  ne_nil := by simp
  head c hc := by
    rw [List.append_assoc, List.head?_append_of_ne_nil _ h.trimmed.ne_nil] at hc
    exact h.trimmed.head c hc
  last c hc := by
    rw [List.getLast?_append_of_ne_nil _ h.ne_nil] at hc
    exact h.last c hc

private theorem splitLines?_append (first : Text) (rest after : List Text) :
    splitLines? (first :: (rest ++ [] :: after)) =
      some (first :: rest.takeWhile (fun line => !startsDescription line),
        rest.dropWhile (fun line => !startsDescription line) ++ [] :: after) := by
  have hcut : (rest ++ [] :: after).takeWhile (fun line => !startsDescription line) =
        rest.takeWhile (fun line => !startsDescription line) ∧
      (rest ++ [] :: after).dropWhile (fun line => !startsDescription line) =
        rest.dropWhile (fun line => !startsDescription line) ++ [] :: after := by
    induction rest with
    | nil => exact ⟨rfl, rfl⟩
    | cons l rest ih =>
      cases hl : startsDescription l <;> simp [hl, ih]
  rw [splitLines?, hcut.1, hcut.2]
  split
  · rename_i hnil
    simp at hnil
  · rfl

theorem Readable.split_eq (h : Readable summary description) {first : Text} {rest : List Text}
    (hcons : summary.lines = first :: rest) (abbreviations : List Text) :
    split abbreviations (summary ++ ['\n', '\n'] ++ description) =
      (Text.trim (Text.unlines (first :: rest.takeWhile fun line => !startsDescription line)),
        Text.trimEnd (Text.unlines
          ((rest.dropWhile fun line => !startsDescription line) ++ [] :: description.lines))) := by
  have hends : Text.trimEnd (summary ++ ['\n', '\n'] ++ description) =
      summary ++ ['\n', '\n'] ++ description :=
    Text.trimEnd_eq_self h.trimmed_contents.last
  have hlines : Text.lines (summary ++ ['\n', '\n'] ++ description) =
      summary.lines ++ [] :: description.lines := by
    have hplain := Text.plain_concat_newline h.plain_summary (h.trimmed.last_ne (by decide))
    have hcut := Text.lines_append hplain h.trimmed.ne_nil (h.trimmed.last_ne (by decide))
      ('\n' :: description)
    have hempty : Text.lines ('\n' :: description) = [] :: description.lines :=
      Text.lines_append_newline (b := []) (by simp) (by simp) description
    rw [List.append_assoc, ← hempty]
    exact hcut
  rw [split, hends, hlines, hcons, List.cons_append, splitLines?_append]

theorem Readable.split_contents (h : Readable summary description)
    (hentries : ∀ line ∈ summary.lines.tail, Markup.isSentenceStart line = false)
    (abbreviations : List Text) :
    split abbreviations (summary ++ ['\n', '\n'] ++ description) =
      (summary, '\n' :: description) := by
  have hsummary : Text.unlines summary.lines = summary :=
    Text.unlines_lines h.plain_summary (h.trimmed.last_ne (by decide))
  have hdescription : Text.unlines ([] :: description.lines) = '\n' :: description := by
    obtain ⟨l, ls, hcons⟩ := List.exists_cons_of_ne_nil (Text.lines_ne_nil h.ne_nil)
    have hunlines := Text.unlines_lines h.plain_description fun hc => absurd (h.last _ hc) (by decide)
    rw [hcons] at hunlines ⊢
    rw [Text.unlines_cons_cons, hunlines]
    rfl
  obtain ⟨first, rest, hcons⟩ := List.exists_cons_of_ne_nil (Text.lines_ne_nil h.trimmed.ne_nil)
  have hstarts : ∀ line ∈ rest, (!startsDescription line) = true := by
    intro line hline
    have htail : line ∈ summary.lines.tail := by rwa [hcons]
    have hblank := Text.isBlank_of_mem_tail_lines h.unbroken h.plain_summary h.trimmed.last line htail
    rw [startsDescription, hentries line htail, hblank]
    rfl
  have hlast : ∀ c, ('\n' :: description).getLast? = some c → Character.isBlank c = false := by
    rw [List.getLast?_cons_of_ne_nil h.ne_nil]
    exact h.last
  rw [h.split_eq hcons, List.takeWhile_eq_self_iff.mpr hstarts, List.dropWhile_eq_nil_iff.mpr hstarts,
    List.nil_append, ← hcons, hsummary, hdescription, trim_eq_self h.trimmed.head h.trimmed.last,
    Text.trimEnd_eq_self hlast]

private theorem exists_opening_of_mem_canonicalOpenings {opening : Text}
    (h : opening ∈ canonicalOpenings) :
    ∃ (tried : List Opening) (o : Opening) (rest : List Opening),
      Opening.all = tried ++ o :: rest ∧ o.text = opening ∧ o.quote = tripleDouble ∧
        o.canonical = opening ∧ ∀ q ∈ tried, ∀ s, Text.after? q.text (opening ++ s) = none := by
  simp only [canonicalOpenings, List.mem_cons, List.not_mem_nil, or_false] at h
  rcases h with rfl | rfl | rfl
  · exact ⟨Opening.all.take 8, ⟨[], tripleDouble⟩, _, rfl, rfl, rfl, rfl,
      by simp [Opening.all, Opening.text, Text.after?, tripleDouble]⟩
  · exact ⟨[], ⟨['r'], tripleDouble⟩, _, rfl, rfl, rfl, rfl, by simp⟩
  · exact ⟨Opening.all.take 4, ⟨['u'], tripleDouble⟩, _, rfl, rfl, rfl, rfl,
      by simp [Opening.all, Opening.text, Text.after?]⟩

theorem strip_of_mem_canonicalOpenings {opening : Text} (h : opening ∈ canonicalOpenings)
    (x : Text) : strip (opening ++ x ++ tripleDouble) = .ok ⟨opening, x.trim⟩ := by
  obtain ⟨tried, o, rest, hall, htext, hquote, hcanonical, htried⟩ :=
    exists_opening_of_mem_canonicalOpenings h
  have htrim : Text.trim (opening ++ x ++ tripleDouble) = opening ++ x ++ tripleDouble := by
    have hne : opening ≠ [] := by
      have hnonempty : canonicalOpenings.all (fun p => !p.isEmpty) = true := by decide
      simpa using List.all_eq_true.mp hnonempty opening h
    apply trim_eq_self
    · intro c hc
      rw [List.append_assoc, List.head?_append_of_ne_nil _ hne] at hc
      exact canonical_solid h c (List.mem_of_mem_head? hc)
    · intro c hc
      rw [List.getLast?_append_of_ne_nil _ (by decide)] at hc
      exact tripleDouble_solid c (List.mem_of_getLast? hc)
  have hstrip : strip? (opening ++ x ++ tripleDouble) = some ⟨opening, x.trim⟩ := by
    rw [strip?, htrim, List.append_assoc]
    refine List.findSome?_eq_some_iff.mpr ⟨tried, o, rest, hall, ?_, ?_⟩
    · have hafter : Text.after? o.text (opening ++ (x ++ tripleDouble)) = some (x ++ tripleDouble) :=
        Text.after?_eq_some.mpr (by rw [htext])
      have hbefore : Text.before? o.quote (x ++ tripleDouble) = some x :=
        Text.before?_eq_some.mpr (by rw [hquote])
      rw [Opening.inner?, hafter, Option.bind_some, hbefore, hcanonical]
      rfl
    · intro q hq
      rw [Opening.inner?, htried q hq]
      rfl
  rw [strip, hstrip]

theorem contents_of_strip {literal opening contents : Text} (hliteral : '\r' ∉ literal)
    (h : strip literal = .ok ⟨opening, contents⟩) (hne : contents ≠ []) :
    opening ∈ canonicalOpenings ∧ Trimmed contents ∧ '\r' ∉ contents := by
  obtain ⟨q, hq, inner, htext, rfl, rfl⟩ := strip_eq_ok h
  have hover : Over (· ≠ '\r') inner.trim := by
    have htrim : Over (· ≠ '\r') literal.trim :=
      Over.trim fun c hc heq => hliteral (heq ▸ hc)
    rw [htext, Text.over_append, Text.over_append] at htrim
    exact htrim.1.2.trim
  exact ⟨canonical_mem hq, ⟨hne, fun c hc => Text.head?_trim hc, fun c hc => Text.getLast?_trimEnd hc⟩,
    fun hmem => hover _ hmem rfl⟩

end Reading

section Parts

/-- The parts that a literal with a description is laid out from. -/
structure Parts where
  opening : Text
  summary : Text
  description : Text
deriving DecidableEq

/-- The summary and the description with an empty line between them. -/
def Parts.contents (p : Parts) : Text :=
  p.summary ++ ['\n', '\n'] ++ p.description

/-- The literal of the parts. -/
def Parts.literal (o : Options) (indent : Text) (p : Parts) : Text :=
  let lead := if o.preSummaryNewline then '\n' :: indent else []
  let after := if o.postDescriptionBlank then ['\n'] else []
  openingQuotes o p.opening ++ lead ++ p.contents ++ after ++ ['\n'] ++ indent ++ tripleDouble

/-- The parts that a literal is laid out from, if it is taken apart, not left alone, and has a
description. -/
def parts? (o : Options) (indent literal : Text) : Option Parts :=
  match strip literal, tabCompensation o indent with
  | .ok ⟨opening, contents⟩, .ok n =>
    let (summary, description) := split o.abbreviations contents
    let initial := if o.preSummaryNewline then indent else indent ++ [' ', ' ', ' ']
    if contents.isEmpty || (leaveReason? o contents).isSome || description.isEmpty then none
    else some
      { opening,
        summary := wrapSummary (normalizeSummary o.nonCap summary) initial indent (o.wrapSummaries - n),
        description := wrapDescription (descriptionOptions o n) description indent }
  | _, _ => none

variable {o : Options} {indent literal : Text} {p : Parts}

theorem parts?_eq_some (h : parts? o indent literal = some p) :
    ∃ contents n, strip literal = .ok ⟨p.opening, contents⟩ ∧ tabCompensation o indent = .ok n ∧
      contents ≠ [] ∧ (split o.abbreviations contents).2 ≠ [] ∧
      p.summary = wrapSummary (normalizeSummary o.nonCap (split o.abbreviations contents).1)
        (if o.preSummaryNewline then indent else indent ++ [' ', ' ', ' ']) indent
        (o.wrapSummaries - n) ∧
      p.description = wrapDescription (descriptionOptions o n)
        (split o.abbreviations contents).2 indent ∧
      (format o indent literal).result = .ok (p.literal o indent) := by
  unfold parts? at h
  split at h
  · rename_i opening contents n hstrip hcompensation
    dsimp only at h
    split at h
    · cases h
    · rename_i hcases
      simp only [Bool.or_eq_true, List.isEmpty_iff, not_or, Option.not_isSome_iff_eq_none] at hcases
      obtain ⟨⟨hcontents, hleave⟩, hdescription⟩ := hcases
      cases h
      refine ⟨contents, n, hstrip, hcompensation, hcontents, hdescription, rfl, rfl, ?_⟩
      rw [result_format, hstrip, hcompensation]
      simp only [if_neg hcontents, hleave, Except.map, rewritten, List.isEmpty_iff,
        if_neg hdescription]
      simp only [layoutWithDescription, Parts.literal, Parts.contents, List.append_assoc]
  · cases h

private theorem exists_of_parts? (hliteral : '\r' ∉ literal)
    (hp : parts? o indent literal = some p) :
    ∃ summary description n, Trimmed summary ∧ Unbroken summary ∧ '\r' ∉ summary ∧
      description ≠ [] ∧ (∀ c, description.getLast? = some c → Character.isBlank c = false) ∧
      '\r' ∉ description ∧
      p.summary = wrapSummary summary
        (if o.preSummaryNewline then indent else indent ++ [' ', ' ', ' ']) indent
        (o.wrapSummaries - n) ∧
      p.description = wrapDescription (descriptionOptions o n) description indent := by
  obtain ⟨contents, n, hstrip, -, hne, hdescription, hsummary, hwrapped, -⟩ := parts?_eq_some hp
  obtain ⟨-, hcontents, hreturn⟩ := contents_of_strip hliteral hstrip hne
  have hover : Over (· ≠ '\r') contents := fun c hc heq => hreturn (heq ▸ hc)
  have htrimmed : Trimmed (split o.abbreviations contents).1 := trimmed_split hcontents
  obtain ⟨hunbroken, hlast⟩ := split_spec hcontents hreturn hdescription
  have hnormal := trimmed_normalizeSummary o.nonCap htrimmed
  have hnormalUnbroken := unbroken_normalizeSummary o.nonCap htrimmed hunbroken
  obtain ⟨hsummaryOver, hdescriptionOver⟩ := over_split admits_ne_return hover o.abbreviations
  have hnormalOver := over_normalizeSummary admits_ne_return hsummaryOver o.nonCap
  exact ⟨_, _, n, hnormal, hnormalUnbroken, fun hmem => hnormalOver _ hmem rfl, hdescription, hlast,
    fun hmem => hdescriptionOver _ hmem rfl, hsummary, hwrapped⟩

private theorem framed_of_parts? (hliteral : '\r' ∉ literal) (hindent : Text.isBlank indent = true)
    (hp : parts? o indent literal = some p) : Framed p.summary p.description := by
  obtain ⟨summary, description, n, htrimmed, -, -, hne, hlast, hreturn, hsummary, hdescription⟩ :=
    exists_of_parts? hliteral hp
  have hinitial := isBlank_summaryLead hindent o.preSummaryNewline
  obtain ⟨hwrapped, hend⟩ := wrapDescription_last hindent hreturn hne hlast (descriptionOptions o n)
  rw [hsummary, hdescription]
  exact ⟨trimmed_wrapSummary hinitial hindent htrimmed _, hwrapped, hend⟩

theorem readable_of_parts? (hliteral : '\r' ∉ literal) (hindent : Text.isBlank indent = true)
    (hnewline : '\n' ∉ indent) (hp : parts? o indent literal = some p) :
    Readable p.summary p.description := by
  obtain ⟨summary, description, n, -, hunbroken, hsummaryReturn, -, -, hreturn, hsummary,
    hdescription⟩ := exists_of_parts? hliteral hp
  have hinitial : '\n' ∉ (if o.preSummaryNewline then indent else indent ++ [' ', ' ', ' ']) := by
    split
    · exact hnewline
    · simp [hnewline]
  have hwrapped := unbroken_wrapSummary hinitial hnewline hunbroken hsummaryReturn
    (o.wrapSummaries - n)
  rw [← hsummary] at hwrapped
  have hplain := plain_wrapDescription hnewline hindent hreturn (descriptionOptions o n)
  rw [← hdescription] at hplain
  exact ⟨framed_of_parts? hliteral hindent hp, hwrapped.1, hwrapped.2, hplain⟩

theorem exists_literal_eq (o : Options) (hindent : Text.isBlank indent = true) (p : Parts) :
    ∃ before after, Text.isBlank before = true ∧ Text.isBlank after = true ∧
      p.literal o indent = p.opening ++ (before ++ (p.contents ++ after)) ++ tripleDouble := by
  obtain ⟨gap, hgap, hquotes⟩ := exists_openingQuotes_eq o p.opening
  refine ⟨gap ++ (if o.preSummaryNewline then '\n' :: indent else []),
    (if o.postDescriptionBlank then ['\n'] else []) ++ '\n' :: indent, ?_, ?_, ?_⟩
  · rw [Text.isBlank_append, hgap]
    split
    · exact hindent
    · rfl
  · rw [Text.isBlank_append]
    split
    · exact hindent
    · exact hindent
  · simp [Parts.literal, hquotes]

theorem strip_literal_of_parts? (hliteral : '\r' ∉ literal) (hindent : Text.isBlank indent = true)
    (hp : parts? o indent literal = some p) :
    strip (p.literal o indent) = .ok ⟨p.opening, p.contents⟩ := by
  obtain ⟨contents, -, hstrip, -, hne, -⟩ := parts?_eq_some hp
  obtain ⟨hopening, -, -⟩ := contents_of_strip hliteral hstrip hne
  obtain ⟨before, after, hbefore, hafter, hlaid⟩ := exists_literal_eq o hindent p
  have hcontents : Trimmed p.contents := (framed_of_parts? hliteral hindent hp).trimmed_contents
  rw [hlaid, strip_of_mem_canonicalOpenings hopening, hcontents.trim_between hbefore hafter]

theorem isSentenceStart_eq_false {line : Text}
    (h : ∀ c ∈ line.trim.head?, c ≠ '-' ∧ c ≠ '@' ∧ c ≠ ')') :
    Markup.isSentenceStart line = false := by
  unfold Markup.isSentenceStart
  split
  · rfl
  · rename_i c rest hstart
    have hc : line.trim.head? = some c := by
      have hsolid := Text.trimStart_eq_cons hstart
      have hshort : line.trim <+: c :: rest := by
        rw [Text.trim, hstart]
        exact Text.dropEndWhile_isPrefix _ _
      have hne : line.trim ≠ [] := by
        refine (Text.trimmed_trim ?_).ne_nil
        rw [← Text.words_trimStart, hstart]
        exact Text.words_ne_nil_of_head rfl hsolid
      obtain ⟨d, u, hd⟩ := List.exists_cons_of_ne_nil hne
      rw [hd, List.cons_prefix_cons] at hshort
      rw [hd, hshort.1]
      rfl
    simp [h c hc]

/-- Formatting a literal with a description writes parts that are read again from what it writes.  The
opening and the contents are found behind any indentation of blanks.  The contents are split at the
empty line between summary and description, with any abbreviations, unless the indentation has a line
feed or a later line of the summary looks like an entry. -/
theorem parts_are_read_again (hliteral : '\r' ∉ literal) (hindent : Text.isBlank indent = true)
    (hp : parts? o indent literal = some p) :
    (format o indent literal).result = .ok (p.literal o indent) ∧
      strip (p.literal o indent) = .ok ⟨p.opening, p.contents⟩ ∧
      ('\n' ∉ indent →
        (∀ line ∈ p.summary.lines.tail, ∀ c ∈ line.trim.head?, c ≠ '-' ∧ c ≠ '@' ∧ c ≠ ')') →
        ∀ abbreviations, split abbreviations p.contents = (p.summary, '\n' :: p.description)) := by
  obtain ⟨-, -, -, -, -, -, -, -, hformat⟩ := parts?_eq_some hp
  refine ⟨hformat, strip_literal_of_parts? hliteral hindent hp, ?_⟩
  intro hnewline hentries abbreviations
  exact (readable_of_parts? hliteral hindent hnewline hp).split_contents
    (fun line hline => isSentenceStart_eq_false (hentries line hline)) abbreviations

private theorem ne_of_all_heads {ls : List Text}
    (h : ls.all (fun line => line.trim.head?.all fun c => c != '-' && c != '@' && c != ')') = true) :
    ∀ line ∈ ls, ∀ c ∈ line.trim.head?, c ≠ '-' ∧ c ≠ '@' ∧ c ≠ ')' := by
  intro line hline c hc
  have hhead := List.all_eq_true.mp h line hline
  rw [hc] at hhead
  simpa [and_assoc] using hhead

theorem quoted_summary_is_read_again :
    let o : Options :=
      { wrapSummaries := 12, wrapDescriptions := 20, preSummaryNewline := true,
        postDescriptionBlank := true }
    let indent := [' ', ' ']
    let literal := "R'''\"u\" is a name\n\nMore on it.\n:param u: one\n'''".toList
    let p : Parts :=
      { opening := 'r' :: tripleDouble
        summary := "\"u\" is a\n  name.".toList
        description := "  More on it.\n  :param u: one".toList }
    '\r' ∉ literal ∧ Text.isBlank indent = true ∧ parts? o indent literal = some p ∧
      '\n' ∉ indent ∧
      (∀ line ∈ p.summary.lines.tail, ∀ c ∈ line.trim.head?, c ≠ '-' ∧ c ≠ '@' ∧ c ≠ ')') ∧
      (format o indent literal).result = .ok (p.literal o indent) ∧
      strip (p.literal o indent) = .ok ⟨p.opening, p.contents⟩ ∧
      ∀ abbreviations, split abbreviations p.contents = (p.summary, '\n' :: p.description) := by
  intro o indent literal p
  have hliteral : '\r' ∉ literal := by decide +kernel
  have hindent : Text.isBlank indent = true := by decide
  have hp : parts? o indent literal = some p := by decide +kernel
  have hnewline : '\n' ∉ indent := by decide
  have hentries : ∀ line ∈ p.summary.lines.tail, ∀ c ∈ line.trim.head?,
      c ≠ '-' ∧ c ≠ '@' ∧ c ≠ ')' := ne_of_all_heads (by decide +kernel)
  obtain ⟨hformat, hstrip, hsplit⟩ := parts_are_read_again hliteral hindent hp
  exact ⟨hliteral, hindent, hp, hnewline, hentries, hformat, hstrip, hsplit hnewline hentries⟩

/-- A line feed in the indentation puts an empty line into a wrapped summary, and the contents are
split there. -/
theorem summary_broken_by_indentation :
    let o : Options := { wrapSummaries := 8 }
    let indent : Text := ['\n']
    let literal := "'''aaaa bbbb.\n\nMore.'''".toList
    let p : Parts := ⟨tripleDouble, "Aaaa\n\nbbbb.".toList, "\nMore.".toList⟩
    '\r' ∉ literal ∧ Text.isBlank indent = true ∧ parts? o indent literal = some p ∧
      (∀ line ∈ p.summary.lines.tail, ∀ c ∈ line.trim.head?, c ≠ '-' ∧ c ≠ '@' ∧ c ≠ ')') ∧
      (format o indent literal).result = .ok (p.literal o indent) ∧
      split [] p.contents ≠ (p.summary, '\n' :: p.description) ∧
      split [] p.contents = ("Aaaa".toList, "\nbbbb.\n\n\nMore.".toList) := by
  intro o indent literal p
  have hp : parts? o indent literal = some p := by decide +kernel
  obtain ⟨-, -, -, -, -, -, -, -, hformat⟩ := parts?_eq_some hp
  exact ⟨by decide, by decide, hp, ne_of_all_heads (by decide +kernel), hformat,
    by decide +kernel, by decide +kernel⟩

end Parts

end DocstringFormat.Docstring
