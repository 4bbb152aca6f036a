import DocstringFormat.Docstring.Summary
import Mathlib.Data.List.Infix
import Mathlib.Order.Bounds.Defs

/-!
The first sentence of a text is its shortest sentence.

`EndsAt` says where a sentence can end: before a blank or the end of the text, after a mark and not
after an abbreviation.  The scan passes every position at which none can end
(`ShortestFrom.of_succ`), so it stops at the least position at which one can, and only if there is
none it takes the whole text (`shortestFrom_firstSentenceFrom`).  Reading the text word by word comes
to the same (`sentenceByWords_nil`).
-/

set_option autoImplicit false

namespace DocstringFormat.Docstring

variable {abbreviations : List Text} {read s : Text} {result : Text × Text} {p : Nat}

/-- A sentence can end before position `p`: a blank stands there or the text is over, what stands
before it ends with no abbreviation, and it ends with a mark.  A colon is a mark only at the end of a
line. -/
structure EndsAt (abbreviations : List Text) (s : Text) (p : Nat) : Prop where
  boundary : p = s.length ∨ ∃ c ∈ s[p]?, Character.isBlank c = true
  unabbreviated : ∀ a ∈ abbreviations, ¬ a <:+ s.take p
  mark : (∃ c ∈ (s.take p).getLast?, c = '.' ∨ c = '?' ∨ c = '!') ∨
    (s.take p).getLast? = some ':' ∧ s[p]? = some '\n'

private theorem EndsAt.le_length (h : EndsAt abbreviations s p) : p ≤ s.length := by
  rcases h.boundary with hlast | ⟨c, hc, -⟩
  · exact hlast.le
  · exact (List.getElem?_eq_some_iff.mp hc).1.le

private theorem endsSentence_iff (abbreviations : List Text) (read : Text) (c : Char) :
    endsSentence abbreviations read c = true ↔
      (∀ a ∈ abbreviations, ¬ a <:+ read.reverse) ∧
        ((∃ d ∈ read.head?, d = '.' ∨ d = '?' ∨ d = '!') ∨ read.head? = some ':' ∧ c = '\n') := by
  have habbreviation : (!abbreviations.any fun a => a.reverse.isPrefixOf read) = true ↔
      ∀ a ∈ abbreviations, ¬ a <:+ read.reverse := by
    simp only [Bool.not_eq_true', List.any_eq_false, List.isPrefixOf_iff_prefix]
    refine forall₂_congr fun a _ => ?_
    rw [← List.reverse_prefix, List.reverse_reverse]
  unfold endsSentence
  rw [Bool.and_eq_true, habbreviation]
  refine and_congr_right fun _ => ?_
  cases read with
  | nil => simp
  | cons d read => split <;> simp_all

private theorem endsAt_length_iff (read s : Text) :
    EndsAt abbreviations (read.reverse ++ s) read.length ↔
      (∀ c ∈ s.head?, Character.isBlank c = true) ∧
        endsSentence abbreviations read (s.head?.getD ' ') = true := by
  have htake : (read.reverse ++ s).take read.length = read.reverse := by
    rw [← List.length_reverse, List.take_left]
  have hnext : (read.reverse ++ s)[read.length]? = s.head? := by
    rw [← List.length_reverse, List.getElem?_append_right le_rfl, Nat.sub_self, List.head?_eq_getElem?]
  have hboundary : (read.length = (read.reverse ++ s).length ∨
      ∃ c ∈ s.head?, Character.isBlank c = true) ↔ ∀ c ∈ s.head?, Character.isBlank c = true := by
    cases s <;> simp
  have hnewline : s.head? = some '\n' ↔ s.head?.getD ' ' = '\n' := by
    cases s <;> simp
  rw [endsSentence_iff, ← hboundary, ← hnewline]
  constructor
  · intro h
    have hmark := h.mark
    have hfree := h.unabbreviated
    have hend := h.boundary
    rw [htake, List.getLast?_reverse, hnext] at hmark
    rw [htake] at hfree
    rw [hnext] at hend
    exact ⟨hend, hfree, hmark⟩
  · rintro ⟨hend, hfree, hmark⟩
    refine ⟨?_, ?_, ?_⟩
    · rwa [hnext]
    · rwa [htake]
    · rwa [htake, List.getLast?_reverse, hnext]

/-- What looking for the end of a sentence from position `k` on has to give: the text cut at the least
position where one can end, or else the whole text, less one blank at its end or nothing. -/
def ShortestFrom (abbreviations : List Text) (s : Text) (k : Nat) (result : Text × Text) : Prop :=
  (∃ p, IsLeast {p | k ≤ p ∧ EndsAt abbreviations s p} p ∧ result = (s.take p, s.drop p)) ∨
    (∀ p, k ≤ p → ¬ EndsAt abbreviations s p) ∧ result.2 = [] ∧
      ∃ tail : Text, tail.length ≤ 1 ∧ tail.isBlank = true ∧ s = result.1 ++ tail

private theorem shortestFrom_of_endsAt (h : EndsAt abbreviations s p) :
    ShortestFrom abbreviations s p (s.take p, s.drop p) :=
  Or.inl ⟨p, ⟨⟨le_rfl, h⟩, fun _ hq => hq.1⟩, rfl⟩

private theorem ShortestFrom.of_succ (hskip : ¬ EndsAt abbreviations s p)
    (h : ShortestFrom abbreviations s (p + 1) result) : ShortestFrom abbreviations s p result := by
  have hlater : ∀ q, p ≤ q → EndsAt abbreviations s q → p + 1 ≤ q := by
    intro q hle hq
    refine Nat.lt_of_le_of_ne hle ?_
    rintro rfl
    exact hskip hq
  rcases h with ⟨q, ⟨⟨hle, hq⟩, hleast⟩, hresult⟩ | ⟨hnone, hresult⟩
  · refine Or.inl ⟨q, ⟨⟨by omega, hq⟩, ?_⟩, hresult⟩
    rintro r ⟨hr, hends⟩
    exact hleast ⟨hlater r hr hends, hends⟩
  · exact Or.inr ⟨fun q hle hq => hnone q (hlater q hle hq) hq, hresult⟩

private theorem shortestFrom_length (h : ¬ EndsAt abbreviations s s.length) (tail : Text)
    (htail : tail.length ≤ 1) (hblank : tail.isBlank = true) (hs : s = result.1 ++ tail)
    (hrest : result.2 = []) : ShortestFrom abbreviations s s.length result := by
  refine Or.inr ⟨fun q hle hq => ?_, hrest, tail, htail, hblank, hs⟩
  rw [Nat.le_antisymm hq.le_length hle] at hq
  exact h hq

private theorem not_endsAt_blank {c : Char} (hc : Character.isBlank c = true) (s : Text) :
    ¬ EndsAt abbreviations (s ++ [c]) (s ++ [c]).length := by
  intro h
  have hmark := h.mark
  rw [List.take_length, List.getLast?_concat] at hmark
  rcases hmark with ⟨d, hd, hor⟩ | ⟨hcolon, -⟩
  · rw [Option.mem_some_iff.mp hd] at hc
    rcases hor with rfl | rfl | rfl <;> exact absurd hc (by decide)
  · rw [Option.some.inj hcolon] at hc
    exact absurd hc (by decide)

private theorem cut_at_length (read s : Text) :
    ((read.reverse ++ s).take read.length, (read.reverse ++ s).drop read.length) =
      (read.reverse, s) := by
  rw [← List.length_reverse, List.take_left, List.drop_left]

private theorem shortestFrom_firstSentenceFrom (abbreviations : List Text) (read s : Text) :
    ShortestFrom abbreviations (read.reverse ++ s) read.length
      (firstSentenceFrom abbreviations read s) := by
  induction s generalizing read with
  | nil =>
    by_cases hends : EndsAt abbreviations (read.reverse ++ []) read.length
    · have hshortest := shortestFrom_of_endsAt hends
      rwa [cut_at_length] at hshortest
    · rw [List.append_nil] at hends ⊢
      rw [← List.length_reverse] at hends ⊢
      exact shortestFrom_length hends [] (Nat.zero_le 1) rfl (List.append_nil _).symm rfl
  | cons c s ih =>
    have hrest : ShortestFrom abbreviations (read.reverse ++ c :: s) (read.length + 1)
        (firstSentenceFrom abbreviations (c :: read) s) := by
      have hnext := ih (c :: read)
      rwa [List.reverse_cons, List.append_assoc, List.singleton_append, List.length_cons] at hnext
    have hiff := @endsAt_length_iff abbreviations read (c :: s)
    simp only [List.head?_cons, Option.mem_some_iff, forall_eq', Option.getD_some] at hiff
    rw [firstSentenceFrom]
    split
    case isFalse hblank => exact hrest.of_succ fun h => hblank (hiff.mp h).1
    case isTrue hblank =>
      split
      case isTrue hends =>
        have hshortest := shortestFrom_of_endsAt (hiff.mpr ⟨hblank, hends⟩)
        rwa [cut_at_length] at hshortest
      case isFalse hends =>
        have hskip : ¬ EndsAt abbreviations (read.reverse ++ c :: s) read.length :=
          fun h => hends (hiff.mp h).2
        split
        case isFalse hmore => exact hrest.of_succ hskip
        case isTrue hlast =>
          -- The blank at the very end is dropped; no sentence ends behind it.
          obtain rfl := List.isEmpty_iff.mp hlast
          refine ShortestFrom.of_succ hskip ?_
          have hlength : read.length + 1 = (read.reverse ++ [c]).length := by simp
          rw [hlength]
          exact shortestFrom_length (not_endsAt_blank hblank _) [c] le_rfl
            (by simp [Text.isBlank, hblank]) rfl rfl

/-- The first sentence of a text ends at the least position where a sentence can end, and the rest
follows it.  Where none can end, the sentence is the text, less at most one blank at its end. -/
theorem firstSentence_is_shortest (abbreviations : List Text) (s : Text) :
    ((∃ p, EndsAt abbreviations s p) →
      ∃ p, IsLeast {p | EndsAt abbreviations s p} p ∧
        firstSentence abbreviations s = (s.take p, s.drop p) ∧
        (firstSentence abbreviations s).1 ++ (firstSentence abbreviations s).2 = s) ∧
    ((¬ ∃ p, EndsAt abbreviations s p) →
      (firstSentence abbreviations s).2 = [] ∧
        ∃ tail : Text, tail.length ≤ 1 ∧ tail.isBlank = true ∧
          s = (firstSentence abbreviations s).1 ++ tail) ∧
    ((∀ c ∈ s.getLast?, Character.isBlank c = false) →
      (firstSentence abbreviations s).1 ++ (firstSentence abbreviations s).2 = s) := by
  have hscan : ShortestFrom abbreviations s 0 (firstSentence abbreviations s) :=
    shortestFrom_firstSentenceFrom abbreviations [] s
  simp only [ShortestFrom, Nat.zero_le, true_and, forall_const] at hscan
  rcases hscan with ⟨p, hleast, hresult⟩ | ⟨hnone, hrest, tail, hlength, hblank, hs⟩
  · have hjoin : (firstSentence abbreviations s).1 ++ (firstSentence abbreviations s).2 = s := by
      rw [hresult, List.take_append_drop]
    exact ⟨fun _ => ⟨p, hleast, hresult, hjoin⟩, fun h => absurd ⟨p, hleast.1⟩ h, fun _ => hjoin⟩
  · refine ⟨fun ⟨p, hp⟩ => absurd hp (hnone p), fun _ => ⟨hrest, tail, hlength, hblank, hs⟩, ?_⟩
    intro hlast
    have htail : tail = [] := by
      rcases List.eq_nil_or_concat' tail with htail | ⟨u, c, rfl⟩
      · exact htail
      · have hc := hlast c (by rw [hs, ← List.append_assoc, List.getLast?_concat]; rfl)
        simp [Text.isBlank, hc] at hblank
    rw [hrest, List.append_nil]
    rw [htail, List.append_nil] at hs
    exact hs.symm

example :
    firstSentence ["e.g.".toList] "See e.g. this: a\nlist of:\n- items.".toList =
      ("See e.g. this: a\nlist of:".toList, "\n- items.".toList) := by decide

/-!
The same sentence, read word by word.  The blank behind a word is kept apart and becomes part of the
sentence only together with the next word, so it is lost at the end of the text.
-/

section Words

/-- Whether a sentence is over after a word, `gap` being the blank behind it if there is one. -/
def closesSentence (abbreviations : List Text) (sentence gap : Text) : Bool :=
  !abbreviations.any (·.isSuffixOf sentence) &&
    (['.', '?', '!'].any ([·].isSuffixOf sentence) || [':'].isSuffixOf sentence && gap == ['\n'])

def sentenceByWords (abbreviations : List Text) (sentence gap rest : Text) : Text × Text :=
  if rest = [] then (sentence, [])
  else
    let word := rest.takeWhile fun c => !Character.isBlank c
    let behind := rest.dropWhile fun c => !Character.isBlank c
    let sentence := sentence ++ gap ++ word
    if closesSentence abbreviations sentence (behind.take 1) then
      (sentence, behind.take 1 ++ behind.drop 1)
    else sentenceByWords abbreviations sentence (behind.take 1) (behind.drop 1)
termination_by rest.length
decreasing_by
  have hlength := (List.dropWhile_suffix (l := rest) fun c => !Character.isBlank c).length_le
  have hpos := List.length_pos_iff_ne_nil.mpr ‹¬ rest = []›
  rw [List.length_drop]
  omega

private theorem singleton_suffix_reverse (d : Char) (read : Text) :
    [d] <:+ read.reverse ↔ read.head? = some d := by
  rw [← List.reverse_prefix, List.reverse_reverse, List.reverse_singleton]
  cases read <;> simp [eq_comm]

private theorem closesSentence_blank (abbreviations : List Text) (read : Text) (c : Char) :
    closesSentence abbreviations read.reverse [c] = endsSentence abbreviations read c := by
  rw [Bool.eq_iff_iff, endsSentence_iff]
  simp only [closesSentence, Bool.and_eq_true, Bool.or_eq_true, Bool.not_eq_true', List.any_eq_false,
    List.any_eq_true, List.isSuffixOf_iff_suffix, singleton_suffix_reverse]
  refine and_congr Iff.rfl (or_congr ?_ ?_)
  · simp [and_comm]
  · simp

private theorem firstSentenceFrom_word (abbreviations : List Text) (read : Text) {word : Text}
    (hword : ∀ c ∈ word, Character.isBlank c = false) (rest : Text) :
    firstSentenceFrom abbreviations read (word ++ rest) =
      firstSentenceFrom abbreviations (word.reverse ++ read) rest := by
  induction word generalizing read with
  | nil => rfl
  | cons c word ih =>
    have hc : ¬ Character.isBlank c = true := by simp [hword c List.mem_cons_self]
    rw [List.cons_append, firstSentenceFrom, if_neg hc,
      ih (c :: read) fun d hd => hword d (List.mem_cons_of_mem c hd)]
    simp

private theorem firstSentenceFrom_takeWhile (abbreviations : List Text) (sentence rest : Text) :
    let behind := rest.dropWhile fun c => !Character.isBlank c
    let sentence' := sentence ++ rest.takeWhile fun c => !Character.isBlank c
    firstSentenceFrom abbreviations sentence.reverse rest =
      if closesSentence abbreviations sentence' (behind.take 1) then (sentence', behind)
      else if behind.drop 1 = [] then (sentence', [])
      else firstSentenceFrom abbreviations (sentence' ++ behind.take 1).reverse (behind.drop 1) := by
  intro behind sentence'
  have hword : ∀ c ∈ rest.takeWhile fun c => !Character.isBlank c, Character.isBlank c = false :=
    fun c hc => by simpa using List.all_eq_true.mp List.all_takeWhile c hc
  have hsplit : rest = (rest.takeWhile fun c => !Character.isBlank c) ++ behind :=
    List.takeWhile_append_dropWhile.symm
  rw [hsplit, firstSentenceFrom_word abbreviations _ hword, ← List.reverse_append]
  change firstSentenceFrom abbreviations sentence'.reverse behind = _
  cases hbehind : behind with
  | nil => simp [firstSentenceFrom]
  | cons c tail =>
    have hc : Character.isBlank c = true := by
      have hhead := List.head?_dropWhile_not (fun c => !Character.isBlank c) rest
      simpa [show rest.dropWhile (fun c => !Character.isBlank c) = c :: tail from hbehind] using hhead
    rw [firstSentenceFrom, if_pos hc, ← closesSentence_blank, List.reverse_reverse]
    simp only [List.take_succ_cons, List.take_zero, List.drop_succ_cons, List.drop_zero,
      List.isEmpty_iff]
    rw [@List.reverse_append _ sentence', List.reverse_singleton, List.singleton_append]

private theorem sentenceByWords_eq (abbreviations : List Text) (sentence gap rest : Text)
    (hgap : rest = [] → gap = []) :
    sentenceByWords abbreviations sentence gap rest =
      firstSentenceFrom abbreviations (sentence ++ gap).reverse rest := by
  fun_induction sentenceByWords abbreviations sentence gap rest with
  | case1 sentence gap =>
    rw [hgap rfl, List.append_nil, firstSentenceFrom, List.reverse_reverse]
  | case2 sentence gap rest hrest word behind sentence' hcloses =>
    rw [firstSentenceFrom_takeWhile, if_pos hcloses, List.take_append_drop]
  | case3 sentence gap rest hrest word behind sentence' hopen ih =>
    rw [firstSentenceFrom_takeWhile, if_neg hopen]
    split
    case isTrue hlast =>
      rw [hlast, sentenceByWords, if_pos rfl]
    case isFalse hmore => exact ih fun h => absurd h hmore

/-- Reading word by word finds the first sentence. -/
theorem sentenceByWords_nil (abbreviations : List Text) (s : Text) :
    sentenceByWords abbreviations [] [] s = firstSentence abbreviations s :=
  sentenceByWords_eq abbreviations [] [] s fun _ => rfl

end Words

end DocstringFormat.Docstring
