import DocstringFormat.Docstring.Format
import DocstringFormat.Proofs.Docstring.Layout

/-!
What formatting a literal can do.

A literal is left as it is, gets empty quotes, or is rewritten from its summary and its description
(`format_cases`).  Summary and description have the words of the contents (`words_split`).
-/

set_option autoImplicit false

namespace DocstringFormat.Docstring

open Text (words)

theorem splitLines?_eq_some {ls summary description : List Text}
    (h : splitLines? ls = some (summary, description)) : ls = summary ++ description := by
  unfold splitLines? at h
  split at h
  · cases h
  · rename_i first rest
    split at h
    · cases h
    · cases h
      simp

theorem firstSentenceFrom_spec (abbreviations : List Text) (read s : Text)
    (hne : (firstSentenceFrom abbreviations read s).2 ≠ []) :
    (firstSentenceFrom abbreviations read s).1 ++ (firstSentenceFrom abbreviations read s).2 =
        read.reverse ++ s ∧
      ∃ c rest, (firstSentenceFrom abbreviations read s).2 = c :: rest ∧
        Character.isBlank c = true := by
  induction s generalizing read with
  | nil => simp [firstSentenceFrom] at hne
  | cons c s ih =>
    rw [firstSentenceFrom] at hne ⊢
    split
    · rename_i hc
      split
      · exact ⟨rfl, c, s, rfl, hc⟩
      · split
        · rename_i hends hempty
          simp [hc, hends, hempty] at hne
        · rename_i hends hempty
          simp only [if_pos hc, if_neg hends, if_neg hempty] at hne
          simpa using ih (c :: read) hne
    · rename_i hc
      rw [if_neg hc] at hne
      simpa using ih (c :: read) hne

private theorem isBlank_shortestIndentation (ls : List Text) :
    Text.isBlank (Text.shortestIndentation ls) = true := by
  have hfold : ∀ (leads : List Text) (best : Text), Text.isBlank best = true →
      (∀ lead ∈ leads, Text.isBlank lead = true) →
      Text.isBlank (leads.foldl
        (fun best lead => if lead.size < best.size then lead else best) best) = true := by
    intro leads
    induction leads with
    | nil => exact fun best hbest _ => hbest
    | cons lead leads ih =>
      intro best hbest hleads
      refine ih _ ?_ fun l hl => hleads l (List.mem_cons_of_mem _ hl)
      dsimp only
      split
      · exact hleads lead (by simp)
      · exact hbest
  have hleads : ∀ lead ∈ (ls.filter (fun line => !Text.isBlank line)).map Text.leadingBlanks,
      Text.isBlank lead = true := by
    intro lead hlead
    obtain ⟨line, -, rfl⟩ := List.mem_map.mp hlead
    exact Text.isBlank_leadingBlanks line
  simp only [Text.shortestIndentation]
  split
  · rfl
  · rename_i first rest hcons
    rw [hcons] at hleads
    exact hfold rest first (hleads first (by simp)) fun l hl => hleads l (List.mem_cons_of_mem _ hl)

/-- Splitting contents into summary and description keeps their words in order. -/
theorem words_split (abbreviations : List Text) (contents : Text) :
    words contents =
      words (split abbreviations contents).1 ++ words (split abbreviations contents).2 := by
  unfold split
  split
  · rename_i summary description hlines
    have hcut := splitLines?_eq_some hlines
    rw [Text.words_trim, Text.words_trimEnd, Text.words_unlines, Text.words_unlines,
      ← List.flatMap_append, ← hcut, Text.flatMap_words_lines, Text.words_trimEnd]
  · cases hsentence : firstSentence abbreviations contents with
    | mk sentence rest =>
      simp only
      split
      · rename_i hsplit
        have hrest : rest ≠ [] := by
          rintro rfl
          simp [Text.isBlank] at hsplit
        have hspec := firstSentenceFrom_spec abbreviations [] contents
        rw [firstSentence] at hsentence
        rw [hsentence] at hspec
        obtain ⟨hcontents, c, tail, hcons, hc⟩ := hspec hrest
        simp only [List.reverse_nil, List.nil_append] at hcontents hcons
        rw [Text.words_blank_append (isBlank_shortestIndentation _), Text.words_trim, Text.words_trim,
          ← hcontents, hcons, Text.words_append_blank _ hc, Text.words_cons_blank hc]
      · simp

/-- The literal that summary and description of some contents are laid out in. -/
def rewritten (o : Options) (indent opening contents : Text) (compensation : Nat) : Text :=
  let (summary, description) := split o.abbreviations contents
  let quotes := openingQuotes o opening
  let summary := normalizeSummary o.nonCap summary
  if description.isEmpty then layoutSummary o indent quotes summary compensation
  else layoutWithDescription o indent quotes summary description compensation

theorem result_format (o : Options) (indent literal : Text) :
    (format o indent literal).result =
      match strip literal with
      | .error _ => .ok literal
      | .ok ⟨opening, contents⟩ =>
        if contents = [] then .ok (opening ++ tripleDouble)
        else
          match leaveReason? o contents with
          | some _ => .ok literal
          | none => (tabCompensation o indent).map (rewritten o indent opening contents) := by
  unfold format
  cases strip literal with
  | error cause => rfl
  | ok stripped =>
    obtain ⟨opening, contents⟩ := stripped
    by_cases hempty : contents = []
    · subst hempty
      rfl
    · simp only [List.isEmpty_iff, if_neg hempty]
      cases leaveReason? o contents with
      | some reason => rfl
      | none =>
        cases tabCompensation o indent with
        | error fault => rfl
        | ok n =>
          simp only [rewritten, bind, Traced.bind, Traced.ofExcept, Except.map, List.isEmpty_iff]
          split <;> rfl

theorem format_cases {o : Options} {indent literal output : Text}
    (h : (format o indent literal).result = .ok output) :
    output = literal ∨
      ∃ opening contents, strip literal = .ok ⟨opening, contents⟩ ∧
        (contents = [] ∧ output = opening ++ tripleDouble ∨
          contents ≠ [] ∧ leaveReason? o contents = none ∧
            ∃ n, tabCompensation o indent = .ok n ∧
              output = rewritten o indent opening contents n) := by
  rw [result_format] at h
  split at h
  · exact Or.inl (Except.ok.inj h).symm
  · rename_i opening contents hstrip
    split at h
    · rename_i hempty
      exact Or.inr ⟨opening, contents, hstrip, Or.inl ⟨hempty, (Except.ok.inj h).symm⟩⟩
    · rename_i hempty
      split at h
      · exact Or.inl (Except.ok.inj h).symm
      · rename_i hleave
        cases hn : tabCompensation o indent with
        | error fault =>
          rw [hn] at h
          cases h
        | ok n =>
          rw [hn] at h
          exact Or.inr ⟨opening, contents, hstrip,
            Or.inr ⟨hempty, hleave, n, rfl, (Except.ok.inj h).symm⟩⟩

end DocstringFormat.Docstring
