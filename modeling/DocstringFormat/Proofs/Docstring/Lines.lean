import DocstringFormat.Proofs.Docstring.Layout
import DocstringFormat.Proofs.Text.Characters

/-!
What holds of every line of a description.

The lines of a description come from few places: filled paragraphs, text that is only indented anew,
links on lines of their own and the lines that they take a quote from, and fields on one line or on
several.  A property that lines have in each of these places (`LineProperty`) is one of all the lines
(`LineProperty.of_mem_descriptionLines`).
-/

set_option autoImplicit false

namespace DocstringFormat.Docstring

open Text (Over over_nil over_cons)
open Markup (Span Link)

/-- A property that the lines of a description have wherever they come from. -/
structure LineProperty (s indent : Text) (columns : Nat) (style : Markup.Style) (P : Text → Prop) :
    Prop where
  empty : P []
  filled : ∀ p, p ⊆ s → ∀ l ∈ fillParagraph indent columns p, P l
  closing : ∀ p, p ⊆ s → ∀ l ∈ reindentLines indent p, P l
  link : ∀ link ∈ Markup.links s, P (linkLine indent (link.span.of s))
  quoted : ∀ link ∈ Markup.links s,
    P (indent ++ ['"'] ++ Text.trimStart (linkLine indent (link.span.of s)))
  stripped : ∀ line : Text, P (line ++ ['"']) → P line.trimEnd
  name : ∀ span ∈ Markup.fieldSpans style s, P (indent ++ span.of s ++ ['\n'])
  field : ∀ span ∈ Markup.fieldSpans style s, ∀ p, p ⊆ s → P (indent ++ span.of s ++ joinBody p)
  wrapped : ∀ span ∈ Markup.fieldSpans style s, ∀ p, p ⊆ s →
    ∀ l ∈ wrapField (span.of s) (joinBody p) indent columns, P l

private theorem over_paragraphs {P : Char → Prop} {s : Text} (h : Over P s) :
    ∀ p ∈ paragraphs s, Over P p := by
  fun_induction paragraphs s with
  | case1 => simp
  | case2 rest ih =>
    intro p hp
    rcases List.mem_cons.mp hp with rfl | hp
    · exact over_nil
    · simp only [over_cons] at h
      exact ih h.2.2 p hp
  | case3 c rest _ hnone ih =>
    simp only [over_cons] at h
    simpa using h.1
  | case4 c rest _ p ps hsome ih =>
    simp only [over_cons] at h
    have hrest := ih h.2
    rw [hsome] at hrest
    intro q hq
    rcases List.mem_cons.mp hq with rfl | hq
    · exact over_cons.mpr ⟨h.1, hrest p (by simp)⟩
    · exact hrest q (List.mem_cons_of_mem p hq)

private theorem mem_of_mem_dropLastEmpty {l : Text} {ls : List Text} (h : l ∈ dropLastEmpty ls) :
    l ∈ ls := by
  unfold dropLastEmpty at h
  split at h
  · exact List.mem_of_mem_dropLast h
  · exact h

theorem mem_fillParagraphs_cases {s indent l : Text} {columns : Nat}
    (h : l ∈ fillParagraphs s indent columns) :
    l = [] ∨ ∃ p, p ⊆ s ∧ l ∈ fillParagraph indent columns p := by
  have hlines : ∀ l ∈ (paragraphs s).flatMap (paragraphLines indent columns),
      l = [] ∨ ∃ p, p ⊆ s ∧ l ∈ fillParagraph indent columns p := by
    intro l hl
    obtain ⟨p, hp, hl⟩ := List.mem_flatMap.mp hl
    have hsub : p ⊆ s := over_paragraphs (fun c hc => hc) p hp
    unfold paragraphLines at hl
    split at hl
    · split at hl
      · exact Or.inl (List.mem_singleton.mp hl)
      · cases hl
    · rcases List.mem_append.mp hl with hl | hl
      · exact Or.inr ⟨p, hsub, hl⟩
      · exact Or.inl (List.mem_singleton.mp hl)
  simp only [fillParagraphs] at h
  split at h
  · exact Or.inr ⟨s, List.Subset.refl s, h⟩
  · split at h
    · exact hlines l h
    · exact hlines l (mem_of_mem_dropLastEmpty h)

private theorem extract_subset (s : Text) (lo hi : Nat) : s.extract lo hi ⊆ s :=
  Over.extract (fun _ hc => hc) lo hi

private theorem extract?_subset (s : Text) (lo hi : Nat) : (s.extract? lo hi).getD [] ⊆ s :=
  Over.extract? (fun _ hc => hc) lo hi

private theorem of_mem_fieldsAt {s : Text} {spans : List Span} {field : Field}
    (h : field ∈ fieldsAt s spans) :
    (∃ span ∈ spans, field.name = span.of s) ∧ field.segment ⊆ s := by
  fun_induction fieldsAt s spans with
  | case1 => cases h
  | case2 span =>
    obtain rfl := List.mem_singleton.mp h
    exact ⟨⟨span, by simp, rfl⟩, Over.dropBytes (fun _ hc => hc) span.stop⟩
  | case3 span next rest ih =>
    rcases List.mem_cons.mp h with rfl | h
    · exact ⟨⟨span, by simp, rfl⟩, extract_subset s _ _⟩
    · obtain ⟨⟨other, hother, hname⟩, hsegment⟩ := ih h
      exact ⟨⟨other, List.mem_cons_of_mem span hother, hname⟩, hsegment⟩

namespace LineProperty

variable {s indent : Text} {columns : Nat} {style : Markup.Style} {P : Text → Prop}
  (h : LineProperty s indent columns style P)

include h

private theorem of_mem_fillParagraphs {p : Text} (hp : p ⊆ s) :
    ∀ l ∈ fillParagraphs p indent columns, P l := by
  intro l hl
  rcases mem_fillParagraphs_cases hl with rfl | ⟨q, hq, hl⟩
  · exact h.empty
  · exact h.filled q (List.Subset.trans hq hp) l hl

section Links

variable {ls : List Text}

private theorem of_mem_placeLink {link : Link} (hlink : link ∈ Markup.links s)
    (hls : ∀ l ∈ ls, P l) :
    ∀ l ∈ placeLink indent (link.span.of s) ls, P l := by
  have hbut : ∀ l ∈ ls.dropLast, P l := fun l hl => hls l (List.mem_of_mem_dropLast hl)
  unfold placeLink
  split
  · intro l hl
    rcases List.mem_append.mp hl with hl | hl
    · exact hls l hl
    · rw [List.mem_singleton.mp hl]
      exact h.link link hlink
  · rename_i stripped hstripped
    obtain ⟨last, hlast, hbefore⟩ := Option.bind_eq_some_iff.mp hstripped
    obtain rfl := Text.before?_eq_some.mp hbefore
    have hkept := h.stripped stripped (hls _ (List.mem_of_getLast? hlast))
    dsimp only
    split
    · intro l hl
      rcases List.mem_append.mp hl with hl | hl
      · exact hbut l hl
      · rw [List.mem_singleton.mp hl]
        exact h.quoted link hlink
    · intro l hl
      simp only [List.mem_append, List.mem_cons, List.not_mem_nil, or_false] at hl
      rcases hl with hl | rfl | rfl
      · exact hbut l hl
      · exact hkept
      · exact h.quoted link hlink

private theorem of_mem_step {done : LinkProgress} (hdone : ∀ l ∈ done.lines, P l) {link : Link}
    (hlink : link ∈ Markup.links s) : ∀ l ∈ (done.step s indent columns link).lines, P l := by
  rw [LinkProgress.step_eq]
  split
  · have hfilled : ∀ l ∈ done.lines ++
        fillParagraphs (s.extract done.offset link.span.start) indent columns, P l := by
      intro l hl
      rcases List.mem_append.mp hl with hl | hl
      · exact hdone l hl
      · exact h.of_mem_fillParagraphs (extract_subset s _ _) l hl
    refine h.of_mem_placeLink hlink ?_
    simp only [LinkProgress.linesAbove]
    split
    · exact hfilled
    · exact fun l hl => hfilled l (mem_of_mem_dropLastEmpty hl)
  · exact hdone

private theorem of_mem_wrapLinks {links : List Link}
    (hlinks : ∀ link ∈ links, link ∈ Markup.links s)
    (offset : Nat) : ∀ l ∈ (wrapLinks s links offset indent columns).lines, P l := by
  suffices hrun : ∀ done : LinkProgress, (∀ l ∈ done.lines, P l) →
      ∀ l ∈ (links.foldl (LinkProgress.step s indent columns) done).lines, P l by
    exact hrun ⟨[], offset⟩ (by simp)
  induction links with
  | nil => exact fun done hdone => hdone
  | cons link links ih =>
    intro done hdone
    exact ih (fun l hl => hlinks l (List.mem_cons_of_mem link hl)) _
      (h.of_mem_step hdone (hlinks link (by simp)))

end Links

section Fields

private theorem of_mem_separator (isLast : Bool) : ∀ l ∈ separator isLast, P l := by
  cases isLast with
  | true => simp [separator]
  | false => simpa [separator] using h.empty

private theorem of_mem_trailingLines {trailing : Text} (hsub : trailing ⊆ s) :
    ∀ l ∈ trailingLines trailing indent columns, P l := by
  intro l hl
  have hrest : trailing.dropWhile (· == '\n') ⊆ s :=
    List.Subset.trans (List.dropWhile_suffix _).subset hsub
  exact h.of_mem_fillParagraphs hrest l (mem_of_mem_dropLastEmpty hl)

private theorem of_mem_fieldLines {field : Field} {span : Span}
    (hspan : span ∈ Markup.fieldSpans style s)
    (hname : field.name = span.of s) (hsegment : field.segment ⊆ s) (isLast : Bool) :
    ∀ l ∈ fieldLines indent columns field isLast, P l := by
  have hcut := splitAtBreak_append field.segment
  unfold fieldLines
  rw [hname]
  generalize splitAtBreak field.segment = parts at hcut
  obtain ⟨head, trailing⟩ := parts
  rw [← hcut] at hsegment
  have hhead : head ⊆ s := List.Subset.trans (List.subset_append_left _ _) hsegment
  have htrailing := h.of_mem_trailingLines
    (List.Subset.trans (List.subset_append_right head trailing) hsegment)
  have hseparator := h.of_mem_separator isLast
  dsimp only
  have hbody : ∀ l ∈ (if indent.size + (span.of s).size + (joinBody head).size ≤ columns then
      [indent ++ span.of s ++ joinBody head]
      else wrapField (span.of s) (joinBody head) indent columns), P l := by
    split
    · intro l hl
      rw [List.mem_singleton.mp hl]
      exact h.field span hspan head hhead
    · exact h.wrapped span hspan head hhead
  split
  · split
    · intro l hl
      rw [List.mem_singleton.mp hl]
      exact h.name span hspan
    · intro l hl
      simp only [List.cons_append, List.mem_cons, List.mem_append] at hl
      rcases hl with rfl | hl | hl
      · exact h.name span hspan
      · exact htrailing l hl
      · exact hseparator l hl
  · split
    · intro l hl
      simp only [List.mem_append, List.mem_singleton] at hl
      rcases hl with ((hl | rfl) | hl) | hl
      · exact hbody l hl
      · exact h.empty
      · exact htrailing l hl
      · exact hseparator l hl
    · split
      · intro l hl
        rcases List.mem_append.mp hl with hl | hl
        · exact hbody l hl
        · exact hseparator l hl
      · exact hbody

private theorem of_mem_fieldsLines {fields : List Field}
    (hfields : ∀ field ∈ fields,
      (∃ span ∈ Markup.fieldSpans style s, field.name = span.of s) ∧ field.segment ⊆ s) :
    ∀ l ∈ fieldsLines indent columns fields, P l := by
  induction fields with
  | nil => simp [fieldsLines]
  | cons field rest ih =>
    obtain ⟨⟨span, hspan, hname⟩, hsegment⟩ := hfields field (by simp)
    intro l hl
    rw [fieldsLines] at hl
    rcases List.mem_append.mp hl with hl | hl
    · exact h.of_mem_fieldLines hspan hname hsegment rest.isEmpty l hl
    · exact ih (fun f hf => hfields f (List.mem_cons_of_mem field hf)) l hl

end Fields

theorem of_mem_descriptionLines : ∀ l ∈ descriptionLines s indent columns style, P l := by
  have hprose : ∀ link ∈ proseLinks style s, link ∈ Markup.links s :=
    fun link hlink => (List.mem_filter.mp hlink).1
  have hlinks := h.of_mem_wrapLinks hprose 0
  unfold descriptionLines
  dsimp only
  split
  · exact h.of_mem_fillParagraphs (List.Subset.refl s)
  · split
    · intro l hl
      rcases List.mem_append.mp hl with hl | hl
      · exact hlinks l hl
      · exact h.closing _ (extract?_subset s _ _) l hl
    · unfold wrapFields
      split
      · exact hlinks
      · intro l hl
        simp only [List.mem_append] at hl
        rcases hl with (hl | hl) | hl
        · exact hlinks l hl
        · exact h.of_mem_fillParagraphs (extract?_subset s _ _) l hl
        · exact h.of_mem_fieldsLines (fun field hfield => of_mem_fieldsAt hfield) l hl

end LineProperty

end DocstringFormat.Docstring
