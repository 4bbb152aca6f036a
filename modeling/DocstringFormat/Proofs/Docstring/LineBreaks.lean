import DocstringFormat.Proofs.Character.Uppercase
import DocstringFormat.Proofs.Docstring.Characters
import DocstringFormat.Proofs.Text.Breaks

/-!
Line breaks of laid-out summaries and descriptions.

A summary comes out of `wrapSummary` without outer blanks and without a blank line inside.  A
description comes out of `wrapDescription` without a blank at its end.  In both no carriage return
stands before a line feed, though the indentation may have some: no line of layout ends in the
indentation, and behind a carriage return no field is found.
-/

set_option autoImplicit false

namespace DocstringFormat.Docstring

open Text (words Over Plain Unbroken Trimmed)

section Summaries

variable {s contents : Text} {abbreviations : List Text}

theorem solid_uppercase {c : Char} (hc : Character.isBlank c = false) :
    Character.uppercase c ≠ [] ∧ Text.Solid (Character.uppercase c) := by
  have hall : Character.casePairs.all (fun p => p.2.all fun n => !Character.isBlank (Char.ofNat n)) =
      true := by decide +kernel
  refine ⟨Character.uppercase_ne_nil c, Character.forall_mem_uppercase hc ?_⟩
  intro p hp n hn
  simpa using List.all_eq_true.mp (List.all_eq_true.mp hall p hp) n hn

private theorem splitLines?_eq_none {ls : List Text} (h : splitLines? ls = none) :
    ∀ l ∈ ls.tail, startsDescription l = false := by
  unfold splitLines? at h
  split at h
  · simp
  · rename_i first rest
    split at h
    · rename_i hnil
      intro l hl
      have hall := @List.takeWhile_append_dropWhile _ (fun line => !startsDescription line) rest
      rw [hnil, List.append_nil] at hall
      rw [List.tail_cons, ← hall] at hl
      simpa using List.all_eq_true.mp List.all_takeWhile l hl
    · cases h

theorem splitLines?_eq_some_cons {ls summary description : List Text}
    (h : splitLines? ls = some (summary, description)) :
    (∀ l ∈ summary.tail, startsDescription l = false) ∧ ∃ first more, summary = first :: more := by
  unfold splitLines? at h
  split at h
  · cases h
  · rename_i first rest
    split at h
    · cases h
    · cases h
      refine ⟨?_, first, _, rfl⟩
      intro l hl
      simpa using List.all_eq_true.mp List.all_takeWhile l hl

private theorem isBlank_of_startsDescription {line : Text} (h : startsDescription line = false) :
    line.isBlank = false := by
  rw [startsDescription, Bool.or_eq_false_iff] at h
  exact h.1

private theorem words_first_line_ne_nil {first : Text} {rest : List Text} (hs : Trimmed s)
    (h : s.lines = first :: rest) : words first ≠ [] := by
  rcases Text.newline_split s with hnewline | ⟨b, t, rfl, hb⟩
  · rw [Text.lines_of_not_mem hs.ne_nil hnewline] at h
    rw [← (List.cons.inj h).1]
    exact hs.words_ne_nil
  · rw [Text.lines_append_newline_eq hb] at h
    rw [← (List.cons.inj h).1, Text.words_dropTerminator, Text.words_append_of_blank b (by decide)]
    cases b with
    | nil =>
      have hblank := hs.head '\n' rfl
      exact absurd hblank (by decide)
    | cons c b => exact Text.words_ne_nil_of_head rfl (hs.head c rfl)

theorem trimmed_split (hcontents : Trimmed contents) :
    Trimmed (split abbreviations contents).1 := by
  have htrim : contents.trimEnd = contents := Text.trimEnd_eq_self hcontents.last
  unfold split
  rw [htrim]
  split
  · rename_i summary description hlines
    obtain ⟨-, first, more, rfl⟩ := splitLines?_eq_some_cons hlines
    have hcut := splitLines?_eq_some hlines
    refine Text.trimmed_trim ?_
    rw [Text.words_unlines, List.flatMap_cons]
    exact fun hnil => words_first_line_ne_nil hcontents hcut (List.append_eq_nil_iff.mp hnil).1
  · dsimp only
    split
    · rename_i hboth
      simp only [Bool.and_eq_true, Bool.not_eq_true'] at hboth
      exact Text.trimmed_trim (Text.words_ne_nil_of_not_blank hboth.1)
    · exact hcontents

theorem unbroken_of_splitLines?_eq_none (hcontents : Trimmed contents) (hreturn : '\r' ∉ contents)
    (h : splitLines? contents.lines = none) : Unbroken contents := by
  rw [← Text.unlines_lines (Text.plain_of_not_mem_return hreturn) (hcontents.last_ne (by decide))]
  exact Text.unbroken_unlines (fun l hl => Text.newline_not_mem_lines hl)
    fun l hl => isBlank_of_startsDescription (splitLines?_eq_none h l hl)

theorem split_spec (hcontents : Trimmed contents) (hreturn : '\r' ∉ contents)
    (hdescription : (split abbreviations contents).2 ≠ []) :
    Unbroken (split abbreviations contents).1 ∧
      ∀ c, (split abbreviations contents).2.getLast? = some c → Character.isBlank c = false := by
  have htrim : contents.trimEnd = contents := Text.trimEnd_eq_self hcontents.last
  have hnewline : ∀ l ∈ contents.lines, '\n' ∉ l := fun l hl => Text.newline_not_mem_lines hl
  unfold split at hdescription ⊢
  rw [htrim] at hdescription ⊢
  split
  · rename_i summary description hlines
    obtain ⟨hstarts, -⟩ := splitLines?_eq_some_cons hlines
    have hcut := splitLines?_eq_some hlines
    refine ⟨?_, fun c hc => Text.getLast?_trimEnd hc⟩
    refine Unbroken.of_isInfix (Text.unbroken_unlines ?_ ?_) (Text.trim_isInfix _)
    · intro l hl
      apply hnewline
      rw [hcut]
      exact List.mem_append_left _ hl
    · exact fun l hl => isBlank_of_startsDescription (hstarts l hl)
  · rename_i hlines
    have hunbroken := unbroken_of_splitLines?_eq_none hcontents hreturn hlines
    rw [hlines] at hdescription
    have hspec := firstSentenceFrom_spec abbreviations [] contents
    rw [firstSentence] at hdescription ⊢
    generalize firstSentenceFrom abbreviations [] contents = parts at hspec hdescription ⊢
    obtain ⟨sentence, rest⟩ := parts
    dsimp only at hspec hdescription ⊢
    split
    · rename_i hboth
      simp only [Bool.and_eq_true, Bool.not_eq_true'] at hboth
      have hrest : rest ≠ [] := by
        rintro rfl
        simp [Text.isBlank] at hboth
      obtain ⟨hcut, -⟩ := hspec hrest
      have htail := Text.trimmed_trim (Text.words_ne_nil_of_not_blank hboth.2)
      constructor
      · refine hunbroken.of_isInfix ((Text.trim_isInfix sentence).trans ?_)
        exact ⟨[], rest, by simpa using hcut⟩
      · intro c hc
        rw [List.getLast?_append_of_ne_nil _ htail.ne_nil] at hc
        exact htail.last c hc
    · rename_i hneither
      rw [if_neg hneither] at hdescription
      exact absurd rfl hdescription

private theorem trimmed_addPeriod (hs : Trimmed s) : Trimmed (addPeriod s) := by
  unfold addPeriod
  split
  · refine ⟨by simp, ?_, ?_⟩
    · intro c hc
      obtain ⟨d, rest, rfl⟩ := List.exists_cons_of_ne_nil hs.ne_nil
      exact hs.head c hc
    · intro c hc
      rw [List.getLast?_concat] at hc
      obtain rfl := Option.some.inj hc
      decide
  · exact hs

theorem trimmed_normalizeSummary (nonCap : List Text) (hs : Trimmed s) :
    Trimmed (normalizeSummary nonCap s) := by
  have hperiod := trimmed_addPeriod hs
  simp only [normalizeSummary, Text.trimEnd_eq_self hs.last]
  split
  · exact hperiod
  · generalize addPeriod s = t at hperiod
    obtain ⟨c, rest, rfl⟩ := List.exists_cons_of_ne_nil hperiod.ne_nil
    obtain ⟨hne, hsolid⟩ := solid_uppercase (hperiod.head c rfl)
    rw [capitalize]
    refine ⟨by simp [hne], ?_, ?_⟩
    · intro d hd
      rw [List.head?_append_of_ne_nil _ hne] at hd
      exact hsolid d (List.mem_of_mem_head? hd)
    · intro d hd
      by_cases hrest : rest = []
      · rw [hrest, List.append_nil] at hd
        exact hsolid d (List.mem_of_getLast? hd)
      · rw [List.getLast?_append_of_ne_nil _ hrest] at hd
        exact hperiod.last d (by rw [List.getLast?_cons_of_ne_nil hrest, hd])

theorem unbroken_normalizeSummary (nonCap : List Text) (hs : Trimmed s) (hunbroken : Unbroken s) :
    Unbroken (normalizeSummary nonCap s) := by
  have htrimmed := trimmed_addPeriod hs
  have hperiod : Unbroken (addPeriod s) := by
    unfold addPeriod
    split
    · exact hunbroken.concat (by decide)
    · exact hunbroken
  simp only [normalizeSummary, Text.trimEnd_eq_self hs.last]
  split
  · exact hperiod
  · generalize addPeriod s = t at hperiod htrimmed
    obtain ⟨c, rest, rfl⟩ := List.exists_cons_of_ne_nil htrimmed.ne_nil
    obtain ⟨-, hsolid⟩ := solid_uppercase (htrimmed.head c rfl)
    have hnewline : '\n' ∉ Character.uppercase c := fun hmem => by
      have hblank := hsolid _ hmem
      exact absurd hblank (by decide)
    exact (hperiod.of_isInfix (List.suffix_cons c rest).isInfix).prepend hnewline

theorem trimmed_wrapSummary {initial subsequent : Text} (hi : Text.isBlank initial = true)
    (hsub : Text.isBlank subsequent = true) (hs : Trimmed s) (columns : Nat) :
    Trimmed (wrapSummary s initial subsequent columns) := by
  have hwords := words_wrapSummary hi hsub s columns
  unfold wrapSummary at hwords ⊢
  split
  · exact hs
  · rename_i hcolumns
    rw [if_neg hcolumns, Text.words_trim] at hwords
    exact Text.trimmed_trim (by rw [hwords]; exact hs.words_ne_nil)

theorem unbroken_wrapSummary {initial subsequent : Text} (hi : '\n' ∉ initial)
    (hsub : '\n' ∉ subsequent) (hs : Unbroken s) (hreturn : '\r' ∉ s) (columns : Nat) :
    Unbroken (wrapSummary s initial subsequent columns) ∧
      Plain (wrapSummary s initial subsequent columns) := by
  unfold wrapSummary
  split
  · exact ⟨hs, Text.plain_of_not_mem_return hreturn⟩
  · have hlines := fun l => @Text.plain_of_mem_fill s.unwrap initial subsequent l columns hi hsub
    refine ⟨Unbroken.of_isInfix (Text.unbroken_unlines ?_ ?_) (Text.trim_isInfix _),
      Plain.of_isInfix (Text.plain_unlines ?_) (Text.trim_isInfix _)⟩
    · exact fun l hl => (hlines l hl).1
    · exact fun l hl => (hlines l (List.mem_of_mem_tail hl)).2.1
    · exact fun l hl => (hlines l hl).2.2

end Summaries

section Fieldless

variable {indent s t : Text}

private theorem exists_rawLine_of_isPrefix (h : t <+: s) :
    ∀ r ∈ t.rawLines, ∃ r' ∈ s.rawLines, r <+: r' := by
  induction t using Text.line_induction generalizing s with
  | last b hb =>
    by_cases hne : b = []
    · subst hne
      simp
    · intro r hr
      rw [Text.rawLines_of_not_mem hne hb, List.mem_singleton] at hr
      subst hr
      obtain ⟨z, rfl⟩ := h
      rcases Text.newline_split z with hz | ⟨x, y, rfl, hx⟩
      · have hrz : '\n' ∉ r ++ z := by simp [hb, hz]
        refine ⟨r ++ z, ?_, List.prefix_append r z⟩
        rw [Text.rawLines_of_not_mem (by simp [hne]) hrz]
        exact List.mem_singleton_self _
      · have hrx : '\n' ∉ r ++ x := by simp [hb, hx]
        refine ⟨(r ++ x) ++ ['\n'], ?_, by rw [List.append_assoc]; exact List.prefix_append r _⟩
        rw [← List.append_assoc, Text.rawLines_append_newline hrx]
        exact List.mem_cons_self
  | line b t hb ih =>
    obtain ⟨z, rfl⟩ := h
    rw [List.append_assoc, List.cons_append, Text.rawLines_append_newline hb,
      Text.rawLines_append_newline hb]
    intro r hr
    rcases List.mem_cons.mp hr with rfl | hr
    · exact ⟨_, List.mem_cons_self, List.prefix_rfl⟩
    · obtain ⟨r', hr', hshort⟩ := ih (List.prefix_append t z) r hr
      exact ⟨r', List.mem_cons_of_mem _ hr', hshort⟩

private theorem exists_of_mem_rawLines_unlines {ls : List Text} (hls : ∀ l ∈ ls, '\n' ∉ l) :
    ∀ r ∈ (Text.unlines ls).rawLines, ∃ l ∈ ls, r <+: l ++ ['\n'] := by
  induction ls with
  | nil => simp [Text.unlines, Text.join]
  | cons l ls ih =>
    have hl := hls l (by simp)
    intro r hr
    cases ls with
    | nil =>
      by_cases hne : l = []
      · subst hne
        cases hr
      · rw [show Text.unlines [l] = l from rfl, Text.rawLines_of_not_mem hne hl,
          List.mem_singleton] at hr
        exact ⟨l, by simp, hr ▸ List.prefix_append l _⟩
    | cons m ls =>
      rw [Text.unlines_cons_cons, Text.rawLines_append_newline hl] at hr
      rcases List.mem_cons.mp hr with rfl | hr
      · exact ⟨l, by simp, List.prefix_rfl⟩
      · obtain ⟨k, hk, hshort⟩ := ih (fun k hk => hls k (List.mem_cons_of_mem l hk)) r hr
        exact ⟨k, List.mem_cons_of_mem l hk, hshort⟩

private theorem fieldName?_eq_none (style : Markup.Style)
    (h : ∀ c, s.head? = some c → c ≠ ':' ∧ c ≠ '@') :
    style.fieldName? s = none := by
  cases style with
  | numpy => rfl
  | google => rfl
  | sphinx =>
    show Markup.sphinxName? s = none
    unfold Markup.sphinxName?
    split
    · exact absurd rfl (h ':' rfl).1
    · rfl
  | epytext =>
    show Markup.epytextName? s = none
    unfold Markup.epytextName?
    split
    · exact absurd rfl (h '@' rfl).2
    · rfl

private theorem fieldSpansFrom_eq_nil (style : Markup.Style) {ls : List Text}
    (h : ∀ l ∈ ls, ∀ c, (l.dropWhile (fun c => c == ' ' || c == '\t')).head? = some c →
      c ≠ ':' ∧ c ≠ '@') (offset : Nat) : Markup.fieldSpansFrom style offset ls = [] := by
  induction ls generalizing offset with
  | nil => rfl
  | cons l ls ih =>
    have hdrop : l.drop (Markup.fieldMargin l).length =
        l.dropWhile (fun c => c == ' ' || c == '\t') := by
      have hleft := @List.drop_left _ (l.takeWhile (fun c => c == ' ' || c == '\t'))
        (l.dropWhile (fun c => c == ' ' || c == '\t'))
      rwa [List.takeWhile_append_dropWhile] at hleft
    have hspan : Markup.fieldSpan? style offset l = none := by
      rw [Markup.fieldSpan?, hdrop, fieldName?_eq_none style (h l (by simp))]
      rfl
    rw [Markup.fieldSpansFrom, hspan]
    exact ih (fun k hk => h k (List.mem_cons_of_mem l hk)) _

private theorem exists_reindent_eq (hind : Text.isBlank indent = true) (hnewline : '\n' ∉ indent)
    (s : Text) :
    ∃ ls : List Text, Text.reindent indent s = Text.trimEnd (Text.unlines ls) ++ ['\n'] ∧
      ∀ l ∈ ls, '\n' ∉ l ∧ (l = [] ∨ indent <+: l) ∧
        ∀ c, l.getLast? = some c → Character.isBlank c = false := by
  refine ⟨_, rfl, ?_⟩
  intro l hl
  obtain ⟨line, hline, rfl⟩ := List.mem_map.mp hl
  have hshort : Text.trimEnd (indent ++ line) <+: indent ++ line :=
    Text.dropEndWhile_isPrefix _ _
  have hlast : ∀ c, (Text.trimEnd (indent ++ line)).getLast? = some c →
      Character.isBlank c = false := fun c hc => Text.getLast?_trimEnd hc
  refine ⟨?_, ?_, hlast⟩
  · intro hmem
    rcases List.mem_append.mp (hshort.subset hmem) with hmem | hmem
    · exact hnewline hmem
    · exact Text.newline_not_mem_lines hline hmem
  · rcases List.prefix_or_prefix_of_prefix hshort (List.prefix_append indent line) with h | h
    · left
      by_contra hne
      obtain ⟨u, c, hc⟩ := (List.eq_nil_or_concat' _).resolve_left hne
      have hblank := List.all_eq_true.mp (Text.isBlank_of_isPrefix h hind) c (by rw [hc]; simp)
      rw [hlast c (by rw [hc]; simp)] at hblank
      cases hblank
    · exact Or.inr h

private theorem mem_of_head?_dropWhile {p : Char → Bool} {a z r : Text} {b c : Char} (hb : b ∈ a)
    (hp : p b = false) (h : r <+: a ++ z) (hc : (r.dropWhile p).head? = some c) : c ∈ a := by
  induction a generalizing r with
  | nil => cases hb
  | cons x a ih =>
    cases r with
    | nil => cases hc
    | cons y r =>
      obtain ⟨rfl, hr⟩ := List.cons_prefix_cons.mp h
      rw [List.dropWhile_cons] at hc
      split at hc
      · rename_i hy
        rcases List.mem_cons.mp hb with rfl | hb
        · rw [hp] at hy
          cases hy
        · exact List.mem_cons_of_mem y (ih hb hr hc)
      · rw [← Option.some.inj hc]
        exact List.mem_cons_self

private theorem fieldSpans_eq_nil (style : Markup.Style) (hind : Text.isBlank indent = true)
    (hnewline : '\n' ∉ indent) (hreturn : '\r' ∈ indent) (s : Text) :
    Markup.fieldSpans style (Text.trimEnd (Text.reindent indent s)) = [] := by
  obtain ⟨ls, hreindent, hls⟩ := exists_reindent_eq hind hnewline s
  have hstart : Text.trimEnd (Text.reindent indent s) <+: Text.unlines ls := by
    rw [hreindent, Text.trimEnd_append_of_blank (fun c hc => Text.getLast?_trimEnd hc) (by decide)]
    exact Text.dropEndWhile_isPrefix _ _
  apply fieldSpansFrom_eq_nil
  intro r hr c hc
  obtain ⟨r', hr', hshort⟩ := exists_rawLine_of_isPrefix hstart r hr
  obtain ⟨l, hl, hlong⟩ := exists_of_mem_rawLines_unlines (fun l hl => (hls l hl).1) r' hr'
  have hblank : Character.isBlank c = true := by
    have hline := hshort.trans hlong
    rcases (hls l hl).2.1 with rfl | ⟨y, rfl⟩
    · have hmem := mem_of_head?_dropWhile (a := ['\n']) (z := []) (b := '\n') (by simp) rfl hline hc
      rw [List.mem_singleton.mp hmem]
      decide
    · rw [List.append_assoc] at hline
      exact List.all_eq_true.mp hind c (mem_of_head?_dropWhile hreturn rfl hline hc)
  constructor
  · rintro rfl
    exact absurd hblank (by decide)
  · rintro rfl
    exact absurd hblank (by decide)

end Fieldless

section Descriptions

variable {indent s : Text} {ls : List Text}

private theorem plain_line {l : Text} (hnewline : '\n' ∉ l) (hlast : l.getLast? ≠ some '\r') :
    Plain (l ++ ['\n']) :=
  Text.plain_concat_newline (Text.plain_of_not_mem_newline hnewline) hlast

private theorem plain_reindent (hind : Text.isBlank indent = true) (hnewline : '\n' ∉ indent)
    (s : Text) :
    Plain (Text.reindent indent s) := by
  obtain ⟨ls, hreindent, hls⟩ := exists_reindent_eq hind hnewline s
  rw [hreindent]
  have hlines : Plain (Text.unlines ls) := by
    apply Text.plain_unlines
    intro l hl
    obtain ⟨hl, -, hlast⟩ := hls l hl
    exact plain_line hl fun h => absurd (hlast _ h) (by decide)
  refine Text.plain_concat_newline (hlines.of_isInfix (Text.dropEndWhile_isPrefix _ _).isInfix) ?_
  exact fun h => absurd (Text.getLast?_trimEnd h) (by decide)

variable (hnewline : '\n' ∉ indent)
include hnewline

private theorem plain_of_mem_reindentLines (s : Text) :
    ∀ l ∈ reindentLines indent s, Plain (l ++ ['\n']) := by
  intro l hl
  obtain ⟨line, hline, rfl⟩ := List.mem_map.mp hl
  split
  · exact plain_line (by simp) (by simp)
  · rename_i hblank
    have htrim := Text.trimmed_trim (Text.words_ne_nil_of_not_blank (Bool.not_eq_true _ ▸ hblank))
    apply plain_line
    · intro hmem
      rcases List.mem_append.mp hmem with hmem | hmem
      · exact hnewline hmem
      · exact Text.newline_not_mem_lines hline ((Text.trim_isInfix line).subset hmem)
    · rw [List.getLast?_append_of_ne_nil _ htrim.ne_nil]
      exact htrim.last_ne (by decide)

omit hnewline in
/-- Lines without outer blanks, joined by spaces, end in a space or in no blank. -/
private theorem getLast?_join_trim {ls : List Text} {c : Char}
    (h : (Text.join [' '] (ls.map Text.trim)).getLast? = some c) :
    c = ' ' ∨ Character.isBlank c = false := by
  induction ls with
  | nil => cases h
  | cons l ls ih =>
    cases ls with
    | nil => exact Or.inr (Text.getLast?_trimEnd h)
    | cons m ls =>
      rw [List.map_cons, List.map_cons, Text.join] at h
      by_cases hnil : Text.join [' '] (Text.trim m :: ls.map Text.trim) = []
      · rw [hnil, List.append_nil, List.getLast?_concat] at h
        exact Or.inl (Option.some.inj h).symm
      · rw [List.getLast?_append_of_ne_nil _ hnil] at h
        exact ih h

omit hnewline in
theorem newline_not_mem_join_trim (s : Text) :
    '\n' ∉ Text.join [' '] (s.lines.map Text.trim) := by
  have hover : Over (· ≠ '\n') (Text.join [' '] (s.lines.map Text.trim)) := by
    refine Text.over_join (by simp [Over]) ?_
    intro l hl c hc heq
    obtain ⟨line, hline, rfl⟩ := List.mem_map.mp hl
    exact Text.newline_not_mem_lines hline ((Text.trim_isInfix line).subset (heq ▸ hc))
  exact fun hmem => hover _ hmem rfl

variable (hind : Text.isBlank indent = true)
include hind

private theorem linkLine_spec {link : Text} (hlink : words link ≠ []) :
    '\n' ∉ linkLine indent link ∧ (linkLine indent link).getLast? ≠ some '\r' := by
  constructor
  · intro hmem
    rcases List.mem_append.mp hmem with hmem | hmem
    · exact hnewline hmem
    · exact newline_not_mem_join_trim link hmem
  · have hne : Text.join [' '] (link.lines.map Text.trim) ≠ [] := by
      intro hnil
      have hwords := words_linkLine hind link
      rw [linkLine, hnil, Text.words_blank_append hind] at hwords
      exact hlink hwords.symm
    rw [linkLine, List.getLast?_append_of_ne_nil _ hne]
    intro hlast
    rcases getLast?_join_trim hlast with h | h
    · exact absurd h (by decide)
    · exact absurd h (by decide)

private theorem plain_quoted {link : Text} (hlink : words link ≠ []) :
    Plain (indent ++ ['"'] ++ Text.trimStart (linkLine indent link) ++ ['\n']) := by
  obtain ⟨hline, hlast⟩ := linkLine_spec hnewline hind hlink
  have hsuffix : Text.trimStart (linkLine indent link) <:+ linkLine indent link :=
    List.dropWhile_suffix _
  have hne : Text.trimStart (linkLine indent link) ≠ [] := by
    intro hnil
    have hwords := Text.words_trimStart (linkLine indent link)
    rw [hnil, words_linkLine hind] at hwords
    exact hlink hwords.symm
  apply plain_line
  · simp only [List.mem_append, List.mem_singleton, not_or]
    exact ⟨⟨hnewline, by decide⟩, fun hmem => hline (hsuffix.subset hmem)⟩
  · obtain ⟨u, hu⟩ := hsuffix
    rw [← hu, List.getLast?_append_of_ne_nil _ hne] at hlast
    rwa [List.getLast?_append_of_ne_nil _ hne]

omit hnewline hind in
private theorem words_link_ne_nil {link : Markup.Link} (h : link ∈ Markup.links s) :
    words (link.span.of s) ≠ [] := by
  obtain ⟨a, hit, b, rfl, hne, hafter, hspan⟩ := Markup.exists_of_mem_links h
  obtain ⟨c, r, rfl⟩ := List.exists_cons_of_ne_nil hne
  rw [Markup.Span.of, hspan, Text.extract_size]
  exact Text.words_ne_nil_of_head rfl (Markup.link_start_solid hafter)

private theorem plain_of_mem_descriptionLines (style : Markup.Style) (columns : Nat)
    (hfields : Markup.fieldSpans style s = []) :
    ∀ l ∈ descriptionLines s indent columns style, Plain (l ++ ['\n']) := by
  refine LineProperty.of_mem_descriptionLines (P := fun l => Plain (l ++ ['\n'])) ?_
  constructor
  case empty => exact plain_line (by simp) (by simp)
  case filled => exact fun p _ l hl => (Text.plain_of_mem_fill hnewline hnewline hl).2.2
  case closing => exact fun p _ => plain_of_mem_reindentLines hnewline p
  case link =>
    intro link hlink
    obtain ⟨hline, hlast⟩ := linkLine_spec hnewline hind (words_link_ne_nil hlink)
    exact plain_line hline hlast
  case quoted => exact fun link hlink => plain_quoted hnewline hind (words_link_ne_nil hlink)
  case stripped =>
    intro line hline
    have hkept : line.trimEnd <:+: line ++ ['"'] ++ ['\n'] := by
      rw [List.append_assoc]
      exact ((Text.dropEndWhile_isPrefix _ line).trans (List.prefix_append _ _)).isInfix
    refine Text.plain_concat_newline (hline.of_isInfix hkept) ?_
    exact fun h => absurd (Text.getLast?_trimEnd h) (by decide)
  all_goals
    intro span hspan
    rw [hfields] at hspan
    cases hspan

omit hnewline hind in
theorem unlines_isSuffix (ms ls : List Text) : Text.unlines ls <:+ Text.unlines (ms ++ ls) := by
  induction ms with
  | nil => exact List.suffix_rfl
  | cons m ms ih =>
    rw [List.cons_append]
    generalize ms ++ ls = rest at ih
    cases rest with
    | nil => exact ih.trans List.nil_suffix
    | cons k rest =>
      rw [Text.unlines_cons_cons]
      exact ih.trans (List.suffix_append_of_suffix (List.suffix_cons _ _))

omit hnewline hind in
private theorem dropLeadingBlankLines_isSuffix (hplain : Plain s) (hlast : s.getLast? ≠ some '\n') :
    Text.dropLeadingBlankLines s <:+ s := by
  have hunlines := Text.unlines_lines hplain hlast
  unfold Text.dropLeadingBlankLines
  split
  · rw [hunlines]
  · have hsuffix := unlines_isSuffix (s.lines.takeWhile Text.isBlank) (s.lines.dropWhile Text.isBlank)
    rwa [List.takeWhile_append_dropWhile, hunlines] at hsuffix

omit hnewline in
/-- A description that does not end in a blank is laid out as one that does not either. -/
theorem wrapDescription_last (hreturn : '\r' ∉ s) (hne : s ≠ [])
    (hlast : ∀ c, s.getLast? = some c → Character.isBlank c = false) (o : DescriptionOptions) :
    wrapDescription o s indent ≠ [] ∧
      ∀ c, (wrapDescription o s indent).getLast? = some c → Character.isBlank c = false := by
  have hsqueeze : Text.squeeze (wrapDescription o s indent) ≠ [] := by
    obtain ⟨u, c, rfl⟩ := (List.eq_nil_or_concat' s).resolve_left hne
    have hc := hlast c (by simp)
    rw [squeeze_wrapDescription hind, Text.squeeze_append]
    simp [Text.squeeze, hc]
  have hwrapped : wrapDescription o s indent ≠ [] := fun hnil => hsqueeze (by rw [hnil]; rfl)
  refine ⟨hwrapped, ?_⟩
  intro c hc
  rcases wrapDescription_cases o s indent with ⟨-, heq⟩ | ⟨t, ht, heq | heq⟩
  · have hsuffix := dropLeadingBlankLines_isSuffix (Text.plain_of_not_mem_return hreturn)
      fun h => absurd (hlast _ h) (by decide)
    rw [← heq] at hsuffix
    obtain ⟨u, hu⟩ := hsuffix
    rw [← hu, List.getLast?_append_of_ne_nil _ hwrapped] at hlast
    exact hlast c hc
  · rw [heq, ht] at hc
    exact Text.getLast?_trimEnd hc
  · rw [heq] at hc hsqueeze
    rw [Text.squeeze_append, Text.squeeze_of_blank hind, List.nil_append] at hsqueeze
    rw [List.getLast?_append_of_ne_nil _ fun hnil => hsqueeze (by rw [hnil]; rfl)] at hc
    exact Text.getLast?_trimEnd hc

theorem plain_wrapDescription (hreturn : '\r' ∉ s) (o : DescriptionOptions) :
    Plain (wrapDescription o s indent) := by
  have hover : Over (· ≠ '\r') s := fun c hc heq => hreturn (heq ▸ hc)
  by_cases hindent : '\r' ∈ indent
  · rcases wrapDescription_cases o s indent with ⟨-, heq⟩ | ⟨t, rfl, heq | heq⟩
    · rw [heq]
      have hdrop := hover.dropLeadingBlankLines (by decide)
      exact Text.plain_of_not_mem_return fun hmem => hdrop _ hmem rfl
    · rw [heq]
      exact (plain_reindent hind hnewline _).of_isInfix (Text.dropEndWhile_isPrefix _ _).isInfix
    · have hlines := Text.plain_unlines (plain_of_mem_descriptionLines hnewline hind o.style o.columns
        (fieldSpans_eq_nil o.style hind hnewline hindent (Text.dropLeadingBlankLines s)))
      rw [heq]
      refine (Text.plain_of_not_mem_newline hnewline).append
        (hlines.of_isInfix (Text.trim_isInfix _)) ?_
      exact fun _ hhead => absurd (Text.head?_trim hhead) (by decide)
  · have hwrapped := over_wrapDescription admits_ne_return hover
      (fun c hc heq => hindent (heq ▸ hc)) o
    exact Text.plain_of_not_mem_return fun hmem => hwrapped _ hmem rfl

end Descriptions

end DocstringFormat.Docstring
