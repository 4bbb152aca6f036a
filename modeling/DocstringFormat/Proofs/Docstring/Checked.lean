import DocstringFormat.Proofs.Docstring.Format
import DocstringFormat.Proofs.Docstring.TextKept
import DocstringFormat.Proofs.Text.Cut

/-!
Docstrings laid out with every cut checked.

Taking a literal apart, looking for lists in front of fields, and laying out links and fields all cut
texts at byte offsets that were computed before.  Here the same work is done with cuts that are
faults unless they fall between characters and in order.  The offsets come from spans of the text
itself, so none of the cuts is a fault, and the tabs of the indentation alone can stop the layout
(`checkedFormat_eq`).
-/

set_option autoImplicit false

namespace DocstringFormat

open Text (cut IsOffset)

namespace Markup

def checkedBeforeFields (style : Style) (s : Text) : Except Fault Text :=
  match fieldSpans style s with
  | [] => .ok s
  | field :: _ => s.cut 0 field.start

def checkedIsList (s : Text) (nonStrict : Bool) (style : Style) : Except Fault Bool :=
  if !nonStrict && isHeuristicList s then .ok true
  else if isFieldList style s then do
    return hasListLine (← checkedBeforeFields style s)
  else .ok (hasNumpyHeader s || hasListLine s)

theorem Marks.isOffset {offset : Nat} {s : Text} {span : Span} {spans : List Span}
    (h : Marks offset s (span :: spans)) :
    ∃ start, span.start = offset + start ∧ IsOffset s start := by
  cases h with
  | some _ a body b _ _ => exact ⟨a.size, rfl, Text.isOffset_append _ _⟩

private theorem checkedBeforeFields_eq (style : Style) (s : Text) :
    checkedBeforeFields style s = .ok (beforeFields style s) := by
  have hmarks := marks_fieldSpans style s
  rw [checkedBeforeFields, beforeFields]
  cases hspans : fieldSpans style s with
  | nil => rfl
  | cons field later =>
    rw [hspans] at hmarks
    obtain ⟨start, hstart, hoffset⟩ := hmarks.isOffset
    simp only [hstart, Nat.zero_add]
    exact Text.cut_zero_eq hoffset

private theorem checkedIsList_eq (s : Text) (nonStrict : Bool) (style : Style) :
    checkedIsList s nonStrict style = .ok (isList s nonStrict style) := by
  rw [checkedIsList, checkedBeforeFields_eq, isList]
  cases !nonStrict && isHeuristicList s
  · rw [Bool.false_or, if_neg Bool.false_ne_true]
    split <;> rfl
  · rfl

private theorem isOffset_of_mem_links {s : Text} {link : Link} (h : link ∈ links s) :
    IsOffset s link.span.start ∧ IsOffset s link.span.stop ∧ link.span.start ≤ link.span.stop := by
  obtain ⟨a, hit, b, rfl, -, -, hspan⟩ := exists_of_mem_links h
  rw [hspan]
  exact ⟨Text.isOffset_append _ _, (Text.isOffset_append hit b).prepend a, Nat.le_add_right _ _⟩

end Markup

namespace Docstring

open Markup (Link Span Style Marks)

section Literals

def Opening.checkedInner? (o : Opening) (literal : Text) : Except Fault (Option Text) :=
  if o.text.isPrefixOf literal && o.quote.isSuffixOf literal &&
      decide (o.text.size + o.quote.size ≤ literal.size) then
    (literal.cut o.text.size (literal.size - o.quote.size)).map some
  else .ok none

private theorem Opening.inner?_eq_some {o : Opening} {literal inner : Text} :
    o.inner? literal = some inner ↔ literal = o.text ++ (inner ++ o.quote) := by
  rw [Opening.inner?, Option.bind_eq_some_iff]
  simp only [Text.after?_eq_some, Text.before?_eq_some]
  constructor
  · rintro ⟨rest, rfl, rfl⟩
    rfl
  · rintro rfl
    exact ⟨_, rfl, rfl⟩

private theorem Opening.exists_inner {o : Opening} {literal : Text} (hopens : o.text <+: literal)
    (hcloses : o.quote <:+ literal) (hsize : o.text.size + o.quote.size ≤ literal.size) :
    ∃ inner, literal = o.text ++ (inner ++ o.quote) := by
  obtain ⟨before, hbefore⟩ := hcloses
  have hle : o.text.size ≤ Text.size before := by
    rw [← hbefore, Text.size_append] at hsize
    omega
  obtain ⟨inner, rfl⟩ := Text.prefix_of_size_le hopens ⟨_, hbefore⟩ hle
  exact ⟨inner, by rw [← hbefore, List.append_assoc]⟩

private theorem Opening.checkedInner?_eq (o : Opening) (literal : Text) :
    o.checkedInner? literal = .ok (o.inner? literal) := by
  rw [Opening.checkedInner?]
  simp only [Bool.and_eq_true, decide_eq_true_eq, List.isPrefixOf_iff_prefix,
    List.isSuffixOf_iff_suffix]
  split
  · rename_i h
    obtain ⟨inner, hinner⟩ := Opening.exists_inner h.1.1 h.1.2 h.2
    have hsize : literal.size - o.quote.size = o.text.size + inner.size := by
      rw [hinner]
      simp only [Text.size_append]
      omega
    rw [Opening.inner?_eq_some.mpr hinner, hsize, hinner, Text.cut_append]
    rfl
  · rename_i h
    cases hinner : o.inner? literal with
    | none => rfl
    | some inner =>
      rw [Opening.inner?_eq_some] at hinner
      refine absurd ⟨⟨⟨_, hinner.symm⟩, o.text ++ inner, ?_⟩, ?_⟩ h
      · rw [hinner, List.append_assoc]
      · rw [hinner]
        simp only [Text.size_append]
        omega

def checkedStrip? (literal : Text) : Except Fault (Option Stripped) :=
  Opening.all.findSomeM? fun o => do
    let inner ← o.checkedInner? literal.trim
    return inner.map fun inner => ⟨o.canonical, inner.trim⟩

private theorem checkedStrip?_eq (literal : Text) :
    checkedStrip? literal = .ok (strip? literal) := by
  simp only [checkedStrip?, Opening.checkedInner?_eq]
  exact List.findSomeM?_pure

end Literals

section Links

def LinkProgress.checkedStep (s indent : Text) (columns : Nat) (done : LinkProgress)
    (link : Link) : Except Fault LinkProgress :=
  if link.bare || link.span.start < done.offset then .ok done
  else do
    let ahead ← s.cut done.offset link.span.stop
    if ahead.length ≤ columns - indent.size then return done
    else
      let prose ← s.cut done.offset link.span.start
      let before ← s.cut 0 link.span.start
      let hit ← s.cut link.span.start link.span.stop
      let filled := done.lines ++ fillParagraphs prose indent columns
      let kept := if endsWithBreak before then filled else dropLastEmpty filled
      return ⟨placeLink indent hit kept, link.span.stop⟩

variable {s : Text} (indent : Text) (columns : Nat)

private theorem LinkProgress.checkedStep_eq {done : LinkProgress} {link : Link}
    (hdone : IsOffset s done.offset) (hlink : link ∈ Markup.links s) :
    done.checkedStep s indent columns link = .ok (done.step s indent columns link) ∧
      IsOffset s (done.step s indent columns link).offset := by
  obtain ⟨hstart, hstop, hle⟩ := Markup.isOffset_of_mem_links hlink
  unfold LinkProgress.checkedStep LinkProgress.step
  split
  · exact ⟨rfl, hdone⟩
  · rename_i hpassed
    have hahead : done.offset ≤ link.span.start := by
      simp only [Bool.or_eq_true, decide_eq_true_eq, not_or] at hpassed
      omega
    rw [Text.cut_eq hdone hstop (hahead.trans hle), Text.cut_eq hdone hstart hahead,
      Text.cut_zero_eq hstart, Text.cut_eq hstart hstop hle]
    simp only [bind, Except.bind]
    split
    · exact ⟨rfl, hdone⟩
    · exact ⟨rfl, hstop⟩

def checkedLinks (s : Text) (links : List Link) (indent : Text) (columns : Nat) :
    Except Fault LinkProgress :=
  links.foldlM (LinkProgress.checkedStep s indent columns) ⟨[], 0⟩

private theorem checkedLinks_eq {links : List Link}
    (hlinks : ∀ link ∈ links, link ∈ Markup.links s) :
    checkedLinks s links indent columns = .ok (wrapLinks s links 0 indent columns) := by
  -- Each step starts where the last link that was placed ends.
  suffices hrun : ∀ done : LinkProgress, IsOffset s done.offset →
      links.foldlM (LinkProgress.checkedStep s indent columns) done =
        .ok (links.foldl (LinkProgress.step s indent columns) done) from
    hrun ⟨[], 0⟩ (Text.isOffset_zero s)
  induction links with
  | nil => exact fun done _ => rfl
  | cons link links ih =>
    intro done hdone
    have hstep := LinkProgress.checkedStep_eq indent columns hdone (hlinks link List.mem_cons_self)
    rw [List.foldlM_cons, hstep.1, List.foldl_cons]
    exact ih (fun l hl => hlinks l (List.mem_cons_of_mem link hl)) _ hstep.2

end Links

section Fields

def checkedFieldsAt (s : Text) : List Span → Except Fault (List Field)
  | [] => .ok []
  | [span] => do
    let name ← s.cut span.start span.stop
    let segment ← s.cut span.stop s.size
    return [⟨name, segment⟩]
  | span :: next :: rest => do
    let name ← s.cut span.start span.stop
    let segment ← s.cut span.stop next.start
    let fields ← checkedFieldsAt s (next :: rest)
    return ⟨name, segment⟩ :: fields

private theorem checkedFieldsAt_eq {full pre s : Text} {spans : List Span} (hfull : full = pre ++ s)
    (hmarks : Marks pre.size s spans) : checkedFieldsAt full spans = .ok (fieldsAt full spans) := by
  induction spans generalizing pre s with
  | nil => rfl
  | cons span spans ih =>
    cases hmarks with
    | some _ a body b _ rest =>
      have hstart : IsOffset full (pre.size + a.size) := by
        rw [hfull]
        exact (Text.isOffset_append _ _).prepend pre
      have hstop : IsOffset full (pre.size + a.size + (body ++ [':']).size) := by
        rw [hfull, Nat.add_assoc]
        exact ((Text.isOffset_append _ _).prepend a).prepend pre
      have hname := Text.cut_eq hstart hstop (Nat.le_add_right _ _)
      cases spans with
      | nil =>
        rw [checkedFieldsAt, hname, Text.cut_size_eq hstop]
        rfl
      | cons next spans =>
        have hpre : Text.size (pre ++ a ++ (body ++ [':'])) =
            pre.size + a.size + (body ++ [':']).size := by
          simp only [Text.size_append]
        have hfull' : full = pre ++ a ++ (body ++ [':']) ++ b := by
          rw [hfull]
          simp
        obtain ⟨start, hn, hoffset⟩ := rest.isOffset
        have hnext : IsOffset full next.start := by
          rw [hfull', hn, ← hpre]
          exact hoffset.prepend _
        rw [← hpre] at rest
        rw [checkedFieldsAt, hname, Text.cut_eq hstop hnext (by omega), ih hfull' rest]
        rfl

end Fields

section Descriptions

def checkedDescriptionLines (s indent : Text) (columns : Nat) (style : Style) :
    Except Fault (List Text) :=
  match proseLinks style s, Markup.fieldSpans style s with
  | [], [] => .ok (fillParagraphs s indent columns)
  | links, spans => do
    let done ← checkedLinks s links indent columns
    match spans with
    | [] => return done.lines ++ closingLines s done.offset indent
    | first :: _ =>
      let intro := (s.extract? (min done.offset first.start) first.start).getD []
      let fields ← checkedFieldsAt s spans
      return done.lines ++ fillParagraphs intro indent columns ++ fieldsLines indent columns fields

private theorem checkedDescriptionLines_eq (s indent : Text) (columns : Nat) (style : Style) :
    checkedDescriptionLines s indent columns style =
      .ok (descriptionLines s indent columns style) := by
  have hlinks : ∀ link ∈ proseLinks style s, link ∈ Markup.links s := fun link hlink =>
    (List.mem_filter.mp hlink).1
  have hdone := checkedLinks_eq indent columns hlinks
  have hfields := checkedFieldsAt_eq (List.nil_append s).symm (Markup.marks_fieldSpans style s)
  rw [checkedDescriptionLines, descriptionLines]
  cases hspans : Markup.fieldSpans style s with
  | nil =>
    cases hprose : proseLinks style s with
    | nil => rfl
    | cons link links =>
      rw [hprose] at hdone
      simp only [hdone]
      rfl
  | cons span spans =>
    rw [hspans] at hfields
    cases hprose : proseLinks style s with
    | nil =>
      rw [hprose] at hdone
      simp only [hdone, hfields]
      rfl
    | cons link links =>
      rw [hprose] at hdone
      simp only [hdone, hfields]
      rfl

def checkedIsFragile (o : DescriptionOptions) (s : Text) : Except Fault Bool := do
  let listLike ← Markup.checkedIsList s o.nonStrict o.style
  return Markup.isCodeLike s || Markup.hasDirective s || listLike

private theorem checkedIsFragile_eq (o : DescriptionOptions) (s : Text) :
    checkedIsFragile o s = .ok (isFragile o s) := by
  rw [checkedIsFragile, Markup.checkedIsList_eq]
  rfl

def checkedDescription (o : DescriptionOptions) (description indent : Text) : Except Fault Text :=
  let s := Text.dropLeadingBlankLines description
  if Text.includes ['>', '>', '>'] s then .ok s
  else do
    let t := Text.trimEnd (Text.reindent indent s)
    let fragile ← checkedIsFragile o t
    if o.columns = 0 || (!o.forceWrap && fragile) then return t
    else
      let ls ← checkedDescriptionLines t indent o.columns o.style
      return indent ++ Text.trim (Text.unlines ls)

private theorem checkedDescription_eq (o : DescriptionOptions) (description indent : Text) :
    checkedDescription o description indent = .ok (wrapDescription o description indent) := by
  simp only [checkedDescription, checkedIsFragile_eq, checkedDescriptionLines_eq, wrapDescription,
    treatment, bind, Except.bind]
  by_cases hsession : Text.includes ['>', '>', '>'] (Text.dropLeadingBlankLines description) = true
  · simp only [if_pos hsession]
  · simp only [if_neg hsession]
    generalize Text.trimEnd (Text.reindent indent (Text.dropLeadingBlankLines description)) = t
    cases decide (o.columns = 0) || !o.forceWrap && isFragile o t <;> rfl

end Descriptions

section Formatting

def leaveReasonIf (listLike : Bool) (o : Options) (contents : Text) : Option LeaveReason :=
  let (summary, description) := split o.abbreviations contents
  if Text.includes tripleDouble contents then some .nestedQuotes
  else if ['>', '>', '>'].isPrefixOf contents.trimStart then some .doctest
  else if isLoneLink contents then some .loneLink
  else if isUnderlined contents then some .sectionTitle
  else if (dropAdornment description).trim ≠ description.trim then some .adornedDescription
  else if !o.forceWrap && (listLike || Markup.hasDirective summary) then some .listLikeSummary
  else none

/-- As `layoutWithDescription`, around a description that is laid out already. -/
def layoutAround (o : Options) (indent opening summary body : Text) (compensation : Nat) : Text :=
  let initial := if o.preSummaryNewline then indent else indent ++ [' ', ' ', ' ']
  let lead := if o.preSummaryNewline then '\n' :: indent else []
  let first := wrapSummary summary initial indent (o.wrapSummaries - compensation)
  let after := if o.postDescriptionBlank then ['\n'] else []
  opening ++ lead ++ first ++ ['\n', '\n'] ++ body ++ after ++ ['\n'] ++ indent ++ tripleDouble

/-- As `format` without its reports, with the cuts checked. -/
def checkedFormat (o : Options) (indent literal : Text) : Except Fault Text := do
  match ← checkedStrip? literal with
  | none => return literal
  | some ⟨opening, contents⟩ =>
    if contents.isEmpty then return opening ++ tripleDouble
    else
      let (summary, description) := split o.abbreviations contents
      let listLike ← Markup.checkedIsList summary o.nonStrict o.style
      match leaveReasonIf listLike o contents with
      | some _ => return literal
      | none =>
        let compensation ← tabCompensation o indent
        let quotes := openingQuotes o opening
        let summary := normalizeSummary o.nonCap summary
        if description.isEmpty then return layoutSummary o indent quotes summary compensation
        else
          let body ← checkedDescription (descriptionOptions o compensation) description indent
          return layoutAround o indent quotes summary body compensation

/-- No cut of the layout is a fault. -/
theorem checkedFormat_eq (o : Options) (indent literal : Text) :
    checkedFormat o indent literal = (format o indent literal).result := by
  have hleave : ∀ contents, leaveReason? o contents = leaveReasonIf
      (Markup.isList (split o.abbreviations contents).1 o.nonStrict o.style) o contents :=
    fun _ => rfl
  rw [result_format, checkedFormat, checkedStrip?_eq, strip]
  simp only [Markup.checkedIsList_eq, checkedDescription_eq, hleave, bind, Except.bind]
  cases strip? literal with
  | none => rfl
  | some stripped =>
    obtain ⟨opening, contents⟩ := stripped
    simp only [List.isEmpty_iff]
    split
    · rfl
    · generalize leaveReasonIf _ o contents = reason
      cases reason with
      | some reason => rfl
      | none =>
        cases tabCompensation o indent with
        | error fault => rfl
        | ok compensation =>
          simp only [rewritten, Except.map, List.isEmpty_iff]
          split <;> rfl

/-- A literal is laid out anew: it can be taken apart, it holds something, and nothing in it is
better left alone. -/
def IsReflowed (o : Options) (literal : Text) : Prop :=
  ∃ opening contents, strip literal = .ok ⟨opening, contents⟩ ∧ contents ≠ [] ∧
    leaveReason? o contents = none

theorem result_format_eq_error {o : Options} {indent literal : Text} {fault : Fault} :
    (format o indent literal).result = .error fault ↔
      fault = .overflow ∧ IsReflowed o literal ∧
        wordLimit ≤ indent.count '\t' * (o.tabWidth - 1) := by
  rw [result_format, IsReflowed]
  cases strip literal with
  | error cause => simp
  | ok stripped =>
    obtain ⟨opening, contents⟩ := stripped
    by_cases hempty : contents = []
    · simp [hempty]
    · cases hreason : leaveReason? o contents with
      | some reason => simp [hempty, hreason]
      | none =>
        by_cases hfits : indent.count '\t' * (o.tabWidth - 1) < wordLimit
        · have hlimit : ¬ wordLimit ≤ indent.count '\t' * (o.tabWidth - 1) := Nat.not_le.mpr hfits
          simp [hempty, hreason, tabCompensation, hfits, hlimit, Except.map]
        · simp [hempty, hreason, tabCompensation, hfits, Nat.not_lt.mp hfits, Except.map, eq_comm]

end Formatting

section Numbers

private theorem size_join_concat_le (ws : List Text) (w : Text) :
    Text.size (Text.join [' '] (ws ++ [w])) ≤ Text.size (Text.join [' '] ws) + 1 + w.size := by
  induction ws with
  | nil => simp [Text.join]
  | cons v ws ih =>
    have hspace : Text.size [' '] = 1 := rfl
    cases ws with
    | nil =>
      simp only [List.cons_append, List.nil_append, Text.join, Text.size_append]
      omega
    | cons u ws =>
      simp only [List.cons_append, Text.join, Text.size_append] at ih ⊢
      omega

private theorem size_unwrap_le (s : Text) : s.unwrap.size ≤ s.size := by
  rw [Text.unwrap]
  induction s using Text.word_induction with
  | solid s hs =>
    by_cases hne : s = []
    · rw [hne]
      exact Nat.le_refl _
    · rw [Text.words_of_solid hne hs]
      exact Nat.le_refl _
  | add t c w hc hw ih =>
    have hpos := c.utf8Size_pos
    rw [Text.words_append_blank t hc, Text.size_append, Text.size_cons]
    by_cases hne : w = []
    · rw [hne, Text.words_nil, List.append_nil]
      omega
    · have hjoin := size_join_concat_le (Text.words t) w
      rw [Text.words_of_solid hne hw]
      omega

private theorem size_joinBody_le (s : Text) : (joinBody s).size ≤ s.size + 1 := by
  have hunwrap := size_unwrap_le s
  have hspace : ' '.utf8Size = 1 := rfl
  rw [joinBody]
  split
  · exact Nat.zero_le _
  · rename_i c rest hcons
    rw [hcons] at hunwrap
    split
    · omega
    · rw [Text.size_cons]
      omega

theorem field_columns_lt {style : Style} {indent s : Text} {field : Field}
    (hindent : indent.size ≤ Text.maxSize) (hs : s.size ≤ Text.maxSize)
    (hfield : field ∈ fieldsAt s (Markup.fieldSpans style s)) :
    indent.size + field.name.size + (joinBody (splitAtBreak field.segment).1).size < wordLimit := by
  have hmarks := Markup.marks_fieldSpans style s
  cases hspans : Markup.fieldSpans style s with
  | nil =>
    rw [hspans] at hfield
    cases hfield
  | cons span spans =>
    rw [hspans] at hfield hmarks
    obtain ⟨-, a, b, hab, -, htexts⟩ := fieldsAt_spec (List.nil_append s).symm hmarks
    obtain ⟨fs, gs, hsplit⟩ := List.append_of_mem hfield
    have hwhole : field.name.size + field.segment.size ≤ s.size := by
      rw [hsplit] at htexts
      rw [hab, ← htexts]
      simp only [List.flatMap_append, List.flatMap_cons, Text.size_append]
      omega
    have hhead : Text.size (splitAtBreak field.segment).1 ≤ field.segment.size := by
      have hparts := congrArg Text.size (splitAtBreak_append field.segment)
      rw [Text.size_append] at hparts
      omega
    have hbody := size_joinBody_le (splitAtBreak field.segment).1
    simp only [Text.maxSize, wordLimit] at hindent hs ⊢
    omega

private theorem expandedSize_eq (column : Nat) (s : Text) :
    Text.expandedSize Text.tabStop column s =
      Text.size (Text.expandTabsFrom Text.tabStop column s) := by
  have hspaces : ∀ n, Text.size (List.replicate n ' ') = n := by
    intro n
    induction n with
    | zero => rfl
    | succ n ih =>
      have hspace : ' '.utf8Size = 1 := rfl
      rw [List.replicate_succ, Text.size_cons, ih]
      omega
  induction s generalizing column with
  | nil => rfl
  | cons c s ih =>
    rw [Text.expandedSize, Text.expandTabsFrom]
    split
    · rw [Text.size_append, hspaces, ← ih]
    · split
      · rw [Text.size_cons, ih]
      · rw [Text.size_cons, ih]

theorem expandTabsBy_tabStop {s : Text} (hs : (Text.expandTabs s).size ≤ Text.maxSize) :
    Text.expandTabsBy Text.tabStop s = .ok (Text.expandTabs s) := by
  rw [Text.expandTabsBy]
  split
  · rename_i hmem
    rw [Text.expandTabs_of_not_mem hmem]
  · have hpos : Text.tabStop ≠ 0 := by decide
    rw [if_neg hpos, expandedSize_eq, ← Text.expandTabs, if_neg (Nat.not_lt.mpr hs)]

end Numbers

end Docstring

end DocstringFormat
