import DocstringFormat.Markup.Field
import DocstringFormat.Proofs.Text.Bytes
import DocstringFormat.Proofs.Text.Lines

/-!
Where links and field names stand.

Every link is a part of its text at the offsets of its span (`exists_of_mem_links`) and goes on up
to a blank (`endsAtBlank_of_afterLink?`); the field names of a text follow each other from left to
right (`marks_fieldSpans`).
-/

set_option autoImplicit false

namespace DocstringFormat.Markup

/-- The spans mark field names in a text from left to right, the text itself starting at an
offset. -/
inductive Marks : Nat → Text → List Span → Prop
  | none (offset : Nat) (s : Text) : Marks offset s []
  | some (offset : Nat) (a body b : Text) (spans : List Span)
      (rest : Marks (offset + a.size + (body ++ [':']).size) b spans) :
      Marks offset (a ++ ((body ++ [':']) ++ b))
        (⟨offset + a.size, offset + a.size + (body ++ [':']).size⟩ :: spans)

theorem Marks.prepend {offset : Nat} {s : Text} {spans : List Span} (t : Text)
    (h : Marks (offset + t.size) s spans) : Marks offset (t ++ s) spans := by
  cases h with
  | none => exact .none _ _
  | some _ a body b spans rest =>
    have hsize : offset + t.size + a.size = offset + (t ++ a).size := by
      simp [Nat.add_assoc]
    rw [hsize] at rest ⊢
    rw [← List.append_assoc]
    exact .some offset (t ++ a) body b spans rest

theorem closedRun?_eq_some {p : Char → Bool} {s run : Text}
    (h : closedRun? p s = some run) :
    ∃ body rest, run = body ++ [':'] ∧ s = run ++ rest := by
  unfold closedRun? at h
  split at h
  · rename_i rest hrest
    cases h
    refine ⟨s.takeWhile p, rest, rfl, ?_⟩
    have hs := List.takeWhile_append_dropWhile (p := p) (l := s)
    rw [hrest] at hs
    simpa using hs.symm
  · cases h

private theorem newline_not_mem_closedRun? {p : Char → Bool} {s run : Text} (hp : p '\n' = false)
    (h : closedRun? p s = some run) : '\n' ∉ run := by
  unfold closedRun? at h
  split at h
  · cases h
    intro hmem
    rcases List.mem_append.mp hmem with hmem | hmem
    · have hnewline := List.all_eq_true.mp List.all_takeWhile _ hmem
      rw [hp] at hnewline
      cases hnewline
    · exact absurd hmem (by decide)
  · cases h

theorem exists_closedRun {style : Style} {s name : Text} (h : style.fieldName? s = some name) :
    ∃ mark p rest run, Character.isBlank mark = false ∧ p '\n' = false ∧ s = mark :: rest ∧
      closedRun? p rest = some run ∧ name = mark :: run := by
  cases style with
  | numpy => cases h
  | google => cases h
  | sphinx =>
    simp only [Style.fieldName?] at h
    unfold sphinxName? at h
    split at h
    · split at h
      · obtain ⟨run, hrun, rfl⟩ := Option.map_eq_some_iff.mp h
        exact ⟨':', isSphinxChar, _, run, by decide, by decide, rfl, hrun, rfl⟩
      · cases h
    · cases h
  | epytext =>
    simp only [Style.fieldName?] at h
    unfold epytextName? at h
    split at h
    · obtain ⟨run, hrun, rfl⟩ := Option.map_eq_some_iff.mp h
      exact ⟨'@', isNameChar, _, run, by decide, by decide, rfl, hrun, rfl⟩
    · cases h

theorem fieldName?_eq_some {style : Style} {s name : Text} (h : style.fieldName? s = some name) :
    ∃ body rest, name = body ++ [':'] ∧ s = name ++ rest := by
  obtain ⟨mark, p, _, run, -, -, rfl, hrun, rfl⟩ := exists_closedRun h
  obtain ⟨body, rest, rfl, rfl⟩ := closedRun?_eq_some hrun
  exact ⟨mark :: body, rest, rfl, rfl⟩

theorem newline_not_mem_fieldName? {style : Style} {s name : Text}
    (h : style.fieldName? s = some name) : '\n' ∉ name := by
  obtain ⟨mark, p, rest, run, hmark, hp, -, hrun, rfl⟩ := exists_closedRun h
  have hne : '\n' ≠ mark := by
    rintro rfl
    exact absurd hmark (by decide)
  exact List.not_mem_cons_of_ne_of_not_mem hne (newline_not_mem_closedRun? hp hrun)

private theorem fieldSpan?_eq_some {style : Style} {offset : Nat} {line : Text} {span : Span}
    (h : fieldSpan? style offset line = some span) :
    ∃ lead body rest, style.fieldName? (body ++ [':'] ++ rest) = some (body ++ [':']) ∧
      line = lead ++ ((body ++ [':']) ++ rest) ∧
      span = ⟨offset + lead.size, offset + lead.size + (body ++ [':']).size⟩ := by
  simp only [fieldSpan?] at h
  obtain ⟨name, hname, rfl⟩ := Option.map_eq_some_iff.mp h
  obtain ⟨body, rest, rfl, hrest⟩ := fieldName?_eq_some hname
  refine ⟨fieldMargin line, body, rest, hrest ▸ hname, ?_, rfl⟩
  have hlead : fieldMargin line <+: line := List.takeWhile_prefix _
  rw [← hrest]
  exact (List.prefix_iff_eq_append.mp hlead).symm

private theorem marks_fieldSpansFrom (style : Style) (offset : Nat) (ls : List Text) :
    Marks offset ls.flatten (fieldSpansFrom style offset ls) := by
  induction ls generalizing offset with
  | nil => exact .none _ _
  | cons line ls ih =>
    have later := ih (offset + line.size)
    rw [List.flatten_cons, fieldSpansFrom]
    split
    · exact later.prepend line
    · rename_i span hspan
      obtain ⟨lead, body, rest, -, rfl, rfl⟩ := fieldSpan?_eq_some hspan
      have hsize : offset + (lead ++ ((body ++ [':']) ++ rest)).size =
          offset + lead.size + (body ++ [':']).size + rest.size := by
        simp only [Text.size_append]
        omega
      rw [hsize] at later
      have hrest := later.prepend rest
      have hmark := Marks.some offset lead body (rest ++ ls.flatten) _ hrest
      rw [hsize]
      simpa using hmark

/-- The field names of a text stand in it from left to right. -/
theorem marks_fieldSpans (style : Style) (s : Text) : Marks 0 s (fieldSpans style s) := by
  have h := marks_fieldSpansFrom style 0 s.rawLines
  rw [Text.flatten_rawLines] at h
  exact h

private theorem exists_name_of_mem_fieldSpansFrom {style : Style} {pre : Text} {ls : List Text}
    {span : Span}
    (h : span ∈ fieldSpansFrom style pre.size ls) :
    ∃ t, style.fieldName? t = some (span.of (pre ++ ls.flatten)) := by
  induction ls generalizing pre with
  | nil => cases h
  | cons line ls ih =>
    have later : span ∈ fieldSpansFrom style (pre.size + line.size) ls →
        ∃ t, style.fieldName? t = some (span.of (pre ++ (line :: ls).flatten)) := by
      intro h
      rw [← Text.size_append] at h
      rw [List.flatten_cons, ← List.append_assoc]
      exact ih h
    rw [fieldSpansFrom] at h
    split at h
    · exact later h
    · rename_i first hfirst
      rcases List.mem_cons.mp h with rfl | h
      · obtain ⟨lead, body, rest, hname, rfl, rfl⟩ := fieldSpan?_eq_some hfirst
        have hcut := Text.extract_size (pre ++ lead) (body ++ [':']) (rest ++ ls.flatten)
        rw [Text.size_append pre] at hcut
        refine ⟨body ++ [':'] ++ rest, ?_⟩
        rw [hname, List.flatten_cons, Span.of]
        simpa only [List.append_assoc] using congrArg some hcut.symm
      · exact later h

theorem exists_name_of_mem_fieldSpans {style : Style} {s : Text} {span : Span}
    (h : span ∈ fieldSpans style s) : ∃ t, style.fieldName? t = some (span.of s) := by
  obtain ⟨t, ht⟩ := @exists_name_of_mem_fieldSpansFrom style [] _ span h
  rw [List.nil_append, Text.flatten_rawLines] at ht
  exact ⟨t, ht⟩

private theorem suffix_of_mem_afterRun {p : Char → Bool} {s t : Text} (h : t ∈ Text.afterRun p s) :
    t <:+ s := by
  suffices hrun : ∀ acc, t ∈ Text.runEndsOnto p s acc → t <:+ s ∨ t ∈ acc from
    (hrun [] h).resolve_right (List.not_mem_nil)
  clear h
  induction s with
  | nil =>
    intro acc h
    rcases List.mem_cons.mp h with rfl | h
    · exact Or.inl List.suffix_rfl
    · exact Or.inr h
  | cons c s ih =>
    intro acc h
    rw [Text.runEndsOnto] at h
    split at h
    · rcases ih _ h with h | h
      · exact Or.inl (h.trans (List.suffix_cons c s))
      · rcases List.mem_cons.mp h with rfl | h
        · exact Or.inl List.suffix_rfl
        · exact Or.inr h
    · rcases List.mem_cons.mp h with rfl | h
      · exact Or.inl List.suffix_rfl
      · exact Or.inr h

def EndsAtBlank (s rest : Text) : Prop :=
  (∃ hit c, Character.isBlank c = false ∧ s = hit ++ c :: rest) ∧
    ∀ c, rest.head? = some c → Character.isBlank c = true

private theorem EndsAtBlank.of_suffix {s t rest : Text} (h : EndsAtBlank t rest) (hst : t <:+ s) :
    EndsAtBlank s rest := by
  obtain ⟨⟨hit, c, hc, rfl⟩, hblank⟩ := h
  obtain ⟨lead, rfl⟩ := hst
  exact ⟨⟨lead ++ hit, c, hc, by simp⟩, hblank⟩

private theorem afterScheme?_eq_some {s rest : Text} (h : afterScheme? s = some rest) :
    ∃ scheme ∈ schemes, s = scheme ++ [':'] ++ rest := by
  obtain ⟨scheme, hmem, hafter⟩ := List.exists_of_findSome?_eq_some h
  exact ⟨scheme, hmem, Text.after?_eq_some.mp hafter⟩

private theorem endsAtBlank_of_scheme {s rest : Text}
    (h : (afterScheme? s).map (List.dropWhile fun c => !Character.isBlank c) = some rest) :
    EndsAtBlank s rest := by
  obtain ⟨behind, hbehind, rfl⟩ := Option.map_eq_some_iff.mp h
  obtain ⟨scheme, -, rfl⟩ := afterScheme?_eq_some hbehind
  constructor
  · have hcut := List.takeWhile_append_dropWhile (p := fun c => !Character.isBlank c) (l := behind)
    have hrun := List.all_eq_true.mp (@List.all_takeWhile _ (fun c => !Character.isBlank c) behind)
    rcases List.eq_nil_or_concat' (behind.takeWhile fun c => !Character.isBlank c) with
      hnil | ⟨r, c, hconcat⟩
    · rw [hnil, List.nil_append] at hcut
      exact ⟨scheme, ':', by decide, by rw [hcut, List.append_assoc]; rfl⟩
    · rw [hconcat, List.append_assoc] at hcut
      refine ⟨scheme ++ [':'] ++ r, c, ?_, ?_⟩
      · simpa using hrun c (by rw [hconcat]; simp)
      · rw [List.append_assoc _ r]
        exact congrArg _ hcut.symm
  · intro c hc
    have hhead := List.head?_dropWhile_not (fun c => !Character.isBlank c) behind
    simpa [hc] using hhead

private theorem endsAtBlank_of_afterTarget? {s rest : Text} (h : afterTarget? s = some rest) :
    EndsAtBlank s rest := by
  unfold afterTarget? at h
  split at h
  · exact (endsAtBlank_of_scheme h).of_suffix (List.suffix_cons _ _)
  · exact endsAtBlank_of_scheme h

private theorem endsAtBlank_of_mem_ends {s rest : Text} {ends : List Text}
    (hends : ∀ t ∈ ends, t <:+ s) (h : ends.findSome? afterTarget? = some rest) :
    EndsAtBlank s rest := by
  obtain ⟨t, ht, htarget⟩ := List.exists_of_findSome?_eq_some h
  exact (endsAtBlank_of_afterTarget? htarget).of_suffix (hends t ht)

private theorem suffix_of_mem_afterRun1 {p : Char → Bool} {s t : Text}
    (h : t ∈ Text.afterRun1 p s) : t <:+ s :=
  suffix_of_mem_afterRun (List.mem_of_mem_dropLast h)

/-- A link goes on up to a blank or to the end of the text. -/
theorem endsAtBlank_of_afterLink? {s rest : Text} (h : afterLink? s = some rest) :
    EndsAtBlank s rest := by
  unfold afterLink? at h
  split at h
  · exact (endsAtBlank_of_afterTarget? h).of_suffix ⟨['_', '_', ' '], rfl⟩
  · exact (endsAtBlank_of_afterTarget? h).of_suffix ⟨['`', '`'], rfl⟩
  · rename_i c s _
    split at h
    · obtain ⟨t, ht, hfound⟩ := List.exists_of_findSome?_eq_some h
      have hends := endsAtBlank_of_mem_ends (fun u hu => suffix_of_mem_afterRun1 hu) hfound
      exact (hends.of_suffix (suffix_of_mem_afterRun ht)).of_suffix ⟨['`', c], rfl⟩
    · cases h
  · exact (endsAtBlank_of_mem_ends (fun u hu => suffix_of_mem_afterRun1 hu) h).of_suffix
      ⟨['.', '.', ' ', '_'], rfl⟩
  · exact (endsAtBlank_of_afterTarget? h).of_suffix (List.suffix_cons _ _)
  · exact endsAtBlank_of_afterTarget? h

private theorem take_linkLength? {c : Char} {rest : Text} {n : Nat}
    (h : linkLength? (c :: rest) = some n) :
    afterLink? (c :: rest.take (n - 1) ++ rest.drop (n - 1)) = some (rest.drop (n - 1)) := by
  obtain ⟨behind, hbehind, rfl⟩ := Option.map_eq_some_iff.mp h
  obtain ⟨⟨hit, e, -, hcut⟩, -⟩ := endsAtBlank_of_afterLink? hbehind
  have hne : hit ++ [e] ≠ [] := by simp
  obtain ⟨d, more, hmore⟩ := List.exists_cons_of_ne_nil hne
  have hhit : hit ++ e :: behind = d :: (more ++ behind) := by
    rw [← List.cons_append, ← hmore, List.append_assoc]
    rfl
  rw [hhit] at hcut
  obtain ⟨rfl, rfl⟩ := List.cons.inj hcut
  have hlength : (c :: (more ++ behind)).length - behind.length - 1 = more.length := by
    simp only [List.length_cons, List.length_append]
    omega
  simpa only [hlength, List.take_left, List.drop_left, List.cons_append] using hbehind

private theorem exists_of_mem_linksFrom {offset : Nat} {s : Text} {link : Link}
    (h : link ∈ linksFrom offset s) :
    ∃ a hit b, s = a ++ (hit ++ b) ∧ hit ≠ [] ∧ afterLink? (hit ++ b) = some b ∧
      link.span = ⟨offset + a.size, offset + a.size + hit.size⟩ := by
  fun_induction linksFrom offset s with
  | case1 offset => cases h
  | case2 offset c rest hnone ih =>
    obtain ⟨a, hit, b, rfl, hne, hafter, hspan⟩ := ih h
    refine ⟨c :: a, hit, b, rfl, hne, hafter, ?_⟩
    rw [hspan]
    simp [Nat.add_assoc]
  | case3 offset c rest n hsome hit ih =>
    have hcut : c :: rest = hit ++ rest.drop (n - 1) := by
      simp [hit]
    rcases List.mem_cons.mp h with rfl | h
    · exact ⟨[], hit, rest.drop (n - 1), hcut, by simp [hit], take_linkLength? hsome, by simp⟩
    · obtain ⟨a, hit', b, hrest, hne, hafter, hspan⟩ := ih h
      refine ⟨hit ++ a, hit', b, ?_, hne, hafter, ?_⟩
      · rw [hcut, hrest, List.append_assoc]
      · rw [hspan]
        simp [Nat.add_assoc]

/-- A link is a part of its text, at the offsets of its span. -/
theorem exists_of_mem_links {s : Text} {link : Link} (h : link ∈ links s) :
    ∃ a hit b, s = a ++ (hit ++ b) ∧ hit ≠ [] ∧ afterLink? (hit ++ b) = some b ∧
      link.span = ⟨a.size, a.size + hit.size⟩ := by
  simpa using exists_of_mem_linksFrom h

private theorem schemes_start :
    schemes.all (fun scheme => scheme.head?.any Char.isLower) = true := by
  decide

private theorem isLower_of_afterScheme? {c : Char} {s rest : Text}
    (h : afterScheme? (c :: s) = some rest) : c.isLower = true := by
  obtain ⟨scheme, hmem, hafter⟩ := afterScheme?_eq_some h
  have hstart := List.all_eq_true.mp schemes_start scheme hmem
  cases scheme with
  | nil => cases hstart
  | cons d scheme =>
    obtain ⟨rfl, -⟩ := List.cons.inj hafter
    simpa using hstart

private theorem link_start {c : Char} {s rest : Text} (h : afterLink? (c :: s) = some rest) :
    c ∈ ['_', '`', '.', '\'', '<'] ∨ c.isLower = true := by
  by_cases hmarkup : c ∈ ['_', '`', '.', '\'', '<']
  · exact Or.inl hmarkup
  · refine Or.inr ?_
    simp only [List.mem_cons, List.not_mem_nil, or_false, not_or] at hmarkup
    obtain ⟨hunder, hback, hdot, hquote, hangle⟩ := hmarkup
    have hlink : afterLink? (c :: s) = afterTarget? (c :: s) := by
      rw [afterLink?.eq_def]
      split <;> simp_all
    have htarget : afterTarget? (c :: s) =
        (afterScheme? (c :: s)).map (List.dropWhile (fun d => !Character.isBlank d)) := by
      rw [afterTarget?.eq_def]
      split
      · simp_all
      · rfl
    rw [hlink, htarget] at h
    obtain ⟨behind, hbehind, -⟩ := Option.map_eq_some_iff.mp h
    exact isLower_of_afterScheme? hbehind

theorem link_start_ne_quote {c : Char} {s rest : Text} (h : afterLink? (c :: s) = some rest) :
    c ≠ '"' := by
  rintro rfl
  rcases link_start h with hc | hc
  · exact absurd hc (by decide)
  · exact absurd hc (by decide)

theorem link_start_solid {c : Char} {s rest : Text} (h : afterLink? (c :: s) = some rest) :
    Character.isBlank c = false := by
  rcases link_start h with hc | hc
  · have hall : ['_', '`', '.', '\'', '<'].all (fun d => !Character.isBlank d) = true := by decide
    simpa using List.all_eq_true.mp hall c hc
  · have hlower : 97 ≤ c.toNat ∧ c.toNat ≤ 122 := by
      have hrange : (decide (c.val ≥ 'a'.val) && decide (c.val ≤ 'z'.val)) = true := hc
      simpa [UInt32.le_iff_toNat_le] using hrange
    simp only [Character.isBlank, Bool.or_eq_false_iff, Bool.and_eq_false_iff,
      decide_eq_false_iff_not, beq_eq_false_iff_ne]
    omega

end DocstringFormat.Markup
