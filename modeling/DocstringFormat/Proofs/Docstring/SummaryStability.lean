import DocstringFormat.Proofs.Character.Uppercase
import DocstringFormat.Proofs.Docstring.LineBreaks

/-!
Summaries that are laid out or normalised a second time.

Wrapping reads nothing of a summary but its words, and keeps them, so a wrapped summary is wrapped
to itself (`wrapSummary_stable`).  Normalising leaves a summary that is finished: it has no blank at its
end and wants no period.  Capital letters change neither, and a capitalised text starts with a character
that stays as it is, so a second run finds nothing to do (`normalizeSummary_settles`).
-/

set_option autoImplicit false

namespace DocstringFormat.Docstring

open Text (words unwrap)
open Character (isAlphanumeric uppercase)

section Wrapping

variable {s t initial subsequent : Text} {columns : Nat}

private theorem unwrap_eq_of_words (h : words s = words t) : unwrap s = unwrap t := by
  rw [unwrap, unwrap, h]

theorem wrapSummary_eq_of_words (hcolumns : 0 < columns) (h : words s = words t) :
    wrapSummary s initial subsequent columns = wrapSummary t initial subsequent columns := by
  have hne : columns ≠ 0 := Nat.ne_of_gt hcolumns
  rw [wrapSummary, wrapSummary, if_neg hne, if_neg hne, unwrap_eq_of_words h]

/-- Wrapping a summary keeps its words in order, and neither unwrapping nor wrapping it again tells the
wrapped summary from the summary. -/
theorem wrapSummary_stable (hi : Text.isBlank initial = true) (hs : Text.isBlank subsequent = true)
    (hcolumns : 0 < columns) (s : Text) :
    let wrapped := wrapSummary s initial subsequent columns
    words wrapped = words s ∧ unwrap wrapped = unwrap s ∧
      wrapSummary wrapped initial subsequent columns = wrapped := by
  have hwords := words_wrapSummary hi hs s columns
  exact ⟨hwords, unwrap_eq_of_words hwords, wrapSummary_eq_of_words hcolumns hwords⟩

/-- Blanks of many kinds, and indentations that are wider than the lines. -/
theorem wrapSummary_stable_of_narrow_columns :
    let s : Text := "\u3000One\ttwo\u2028three \r\n\u00a0four.".toList
    let wrapped := wrapSummary s [' ', ' ', ' '] ['\t', '\n', ' '] 2
    wrapped = "One\n\t\n two\n\t\n three\n\t\n four.".toList ∧
      words wrapped = words s ∧ unwrap wrapped = unwrap s ∧
      wrapSummary wrapped [' ', ' ', ' '] ['\t', '\n', ' '] 2 = wrapped :=
  ⟨by decide +kernel, wrapSummary_stable (by decide) (by decide) (by decide) _⟩

end Wrapping

section Normalising

variable {s : Text}

/-- The characters that a summary does not end with: letters, digits and quotes. -/
def EndsOpen (c : Char) : Prop :=
  isAlphanumeric c = true ∨ c = '"' ∨ c = '\''

structure Finished (s : Text) : Prop where
  last : ∀ c, s.getLast? = some c → Character.isBlank c = false
  period : ∀ c, s.getLast? = some c → EndsOpen c → s.head? = some '#'

private theorem wantsPeriod_eq_true_iff :
    wantsPeriod s = true ↔ ∃ c, s.getLast? = some c ∧ EndsOpen c ∧ s.head? ≠ some '#' := by
  unfold wantsPeriod EndsOpen
  cases s.getLast? with
  | none => simp
  | some c => simp [or_assoc]

private theorem Finished.addPeriod_trimEnd (h : Finished s) : addPeriod s.trimEnd = s := by
  have hperiod : ¬ wantsPeriod s = true := by
    rw [wantsPeriod_eq_true_iff]
    rintro ⟨c, hlast, hopen, hhead⟩
    exact hhead (h.period c hlast hopen)
  rw [Text.trimEnd_eq_self h.last, addPeriod, if_neg hperiod]

private theorem finished_addPeriod (s : Text) : Finished (addPeriod s.trimEnd) := by
  unfold addPeriod
  split
  · have hlast : ∀ c, (s.trimEnd ++ ['.']).getLast? = some c → c = '.' := by
      intro c hc
      rw [List.getLast?_concat] at hc
      exact (Option.some.inj hc).symm
    have hdot : isAlphanumeric '.' = false := by decide +kernel
    refine ⟨?_, ?_⟩
    · intro c hc
      rw [hlast c hc]
      rfl
    · intro c hc hopen
      rw [hlast c hc] at hopen
      simp [EndsOpen, hdot] at hopen
  · rename_i hperiod
    rw [wantsPeriod_eq_true_iff] at hperiod
    refine ⟨fun c hc => Text.getLast?_trimEnd hc, ?_⟩
    intro c hc hopen
    by_contra hhead
    exact hperiod ⟨c, hc, hopen, hhead⟩

private theorem ne_hash_of_alphanumeric {c : Char} (h : isAlphanumeric c = true) : c ≠ '#' := by
  rintro rfl
  exact absurd h (by decide +kernel)

private theorem Finished.capitalize_eq_or (h : Finished s) :
    capitalize s = s ∨ ∃ c rest, s = c :: rest ∧ rest ≠ [] ∧ c ≠ '#' := by
  cases s with
  | nil => exact Or.inl rfl
  | cons c rest =>
    cases hc : isAlphanumeric c with
    | false =>
      left
      rw [capitalize, Character.uppercase_of_not_alphanumeric hc]
      rfl
    | true =>
      have hhash := ne_hash_of_alphanumeric hc
      refine Or.inr ⟨c, rest, rfl, ?_, hhash⟩
      rintro rfl
      exact hhash (Option.some.inj (h.period c rfl (Or.inl hc)))

theorem Finished.capitalize (h : Finished s) : Finished (capitalize s) := by
  rcases h.capitalize_eq_or with hself | ⟨c, rest, rfl, hne, hhash⟩
  · rw [hself]
    exact h
  · have hlast : (Docstring.capitalize (c :: rest)).getLast? = (c :: rest).getLast? := by
      rw [Docstring.capitalize, List.getLast?_append_of_ne_nil _ hne,
        List.getLast?_cons_of_ne_nil hne]
    refine ⟨fun d hd => h.last d (hlast ▸ hd), fun d hd hopen => ?_⟩
    exact absurd (Option.some.inj (h.period d (hlast ▸ hd) hopen)) hhash

private theorem capitalize_capitalize (s : Text) : capitalize (capitalize s) = capitalize s := by
  cases s with
  | nil => rfl
  | cons c rest =>
    obtain ⟨d, more, hupper⟩ := List.exists_cons_of_ne_nil (Character.uppercase_ne_nil c)
    have hd : uppercase d = [d] := Character.uppercase_of_head (by rw [hupper]; rfl)
    rw [capitalize, hupper, List.cons_append, capitalize, hd]
    rfl

private theorem Finished.normalizeSummary_eq (h : Finished s) (nonCap : List Text) :
    normalizeSummary nonCap s = if keepsCase nonCap s then s else Docstring.capitalize s := by
  rw [normalizeSummary, h.addPeriod_trimEnd]

private theorem finished_normalizeSummary (nonCap : List Text) (s : Text) :
    Finished (normalizeSummary nonCap s) := by
  have hperiod := finished_addPeriod s
  simp only [normalizeSummary]
  split
  · exact hperiod
  · exact hperiod.capitalize

private theorem normalizeSummary_normalizeSummary (nonCap : List Text) (s : Text) :
    normalizeSummary nonCap (normalizeSummary nonCap s) = normalizeSummary nonCap s := by
  rw [(finished_normalizeSummary nonCap s).normalizeSummary_eq]
  split
  · rfl
  · -- The first run kept the case of a text that the second run would change, or it changed it already.
    rename_i hkeeps
    simp only [normalizeSummary] at hkeeps ⊢
    split
    · rename_i hfirst
      rw [if_pos hfirst] at hkeeps
      exact absurd hfirst hkeeps
    · exact capitalize_capitalize _

/-- `edited` is `s` with its first character in uppercase. -/
def Capitalized (s edited : Text) : Prop :=
  ∃ c rest, s = c :: rest ∧ edited = uppercase c ++ rest

theorem normalizeSummary_edits (nonCap : List Text) (s : Text) :
    ∃ start stop, (start = s.trimEnd ∨ Capitalized s.trimEnd start) ∧ (stop = [] ∨ stop = ['.']) ∧
      normalizeSummary nonCap s = start ++ stop := by
  obtain ⟨stop, hstop, hperiod⟩ : ∃ stop, (stop = [] ∨ stop = ['.']) ∧
      addPeriod s.trimEnd = s.trimEnd ++ stop := by
    unfold addPeriod
    split
    · exact ⟨['.'], Or.inr rfl, rfl⟩
    · exact ⟨[], Or.inl rfl, by rw [List.append_nil]⟩
  simp only [normalizeSummary]
  split
  · exact ⟨s.trimEnd, stop, Or.inl rfl, hstop, hperiod⟩
  · cases htrim : s.trimEnd with
    | nil => exact ⟨[], [], Or.inl rfl, Or.inl rfl, rfl⟩
    | cons c rest =>
      refine ⟨uppercase c ++ rest, stop, Or.inr ⟨c, rest, rfl, rfl⟩, hstop, ?_⟩
      rw [← htrim, hperiod, htrim, List.cons_append, capitalize, List.append_assoc]

/-- Normalising twice is normalising once.  The result is the summary without trailing blanks, perhaps
with its first character in uppercase and perhaps with a period after it, and it ends in a letter, a
digit or a quote only if it is a comment. -/
theorem normalizeSummary_settles (nonCap : List Text) (s : Text) :
    normalizeSummary nonCap (normalizeSummary nonCap s) = normalizeSummary nonCap s ∧
      (∃ start stop, (start = s.trimEnd ∨ Capitalized s.trimEnd start) ∧
        (stop = [] ∨ stop = ['.']) ∧ normalizeSummary nonCap s = start ++ stop) ∧
      ∀ c, (normalizeSummary nonCap s).getLast? = some c → EndsOpen c →
        (normalizeSummary nonCap s).head? = some '#' :=
  ⟨normalizeSummary_normalizeSummary nonCap s, normalizeSummary_edits nonCap s,
    (finished_normalizeSummary nonCap s).period⟩

end Normalising

end DocstringFormat.Docstring
