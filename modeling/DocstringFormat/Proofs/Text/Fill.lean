import DocstringFormat.Proofs.Text.Lines
import DocstringFormat.Text.Fill
import Mathlib.Data.List.Chain

/-!
Filling keeps the words of a text in order.

A text is read as words with spaces after them (`unspace_spacedWords`), packing cuts this list
into lines and drops nothing (`flatten_pack`), and only the spaces at the end of a line are left
out (`words_lineText`).
-/

set_option autoImplicit false

namespace DocstringFormat.Text

/-- The text that spaced words were read from. -/
def unspace (ws : List SpacedWord) : Text :=
  ws.flatMap fun w => w.body ++ List.replicate w.gap ' '

def Spaced (ws : List SpacedWord) : Prop :=
  ws.IsChain fun w _ => 0 < w.gap

private theorem unspace_append (ws vs : List SpacedWord) :
    unspace (ws ++ vs) = unspace ws ++ unspace vs :=
  List.flatMap_append

private theorem spacedWords_cons (c : Char) (rest : Text) :
    spacedWords (c :: rest) =
      if c = ' ' then
        match rest, spacedWords rest with
        | d :: _, w :: ws => if d = ' ' then ⟨[], w.gap + 1⟩ :: ws else ⟨[], 1⟩ :: w :: ws
        | _, ws => ⟨[], 1⟩ :: ws
      else
        match rest, spacedWords rest with
        | _ :: _, w :: ws => ⟨c :: w.body, w.gap⟩ :: ws
        | _, ws => ⟨[c], 0⟩ :: ws := rfl

private theorem spacedWords_first (d : Char) (s : Text) :
    ∃ w ws, spacedWords (d :: s) = w :: ws ∧ (d = ' ' → w.body = []) := by
  rw [spacedWords_cons]
  by_cases hd : d = ' '
  · rw [if_pos hd]
    split
    · split
      · exact ⟨_, _, rfl, fun _ => rfl⟩
      · exact ⟨_, _, rfl, fun _ => rfl⟩
    · exact ⟨_, _, rfl, fun _ => rfl⟩
  · rw [if_neg hd]
    split
    · exact ⟨_, _, rfl, fun h => absurd h hd⟩
    · exact ⟨_, _, rfl, fun h => absurd h hd⟩

/-- Reading a text as spaced words loses nothing. -/
theorem unspace_spacedWords (s : Text) : unspace (spacedWords s) = s := by
  induction s with
  | nil => rfl
  | cons c s ih =>
    rw [spacedWords_cons]
    cases s with
    | nil =>
      by_cases hc : c = ' '
      · simp [hc, spacedWords, unspace]
      · simp [hc, spacedWords, unspace]
    | cons d s =>
      obtain ⟨w, ws, hw, hbody⟩ := spacedWords_first d s
      rw [hw] at ih ⊢
      by_cases hc : c = ' '
      · by_cases hd : d = ' '
        · have hw' : w.body = [] := hbody hd
          simp only [unspace, List.flatMap_cons, hw', List.nil_append] at ih
          subst hc hd
          simp [unspace, List.replicate_succ, ← ih]
        · simp only [unspace] at ih
          simp [unspace, hc, hd, ← ih]
      · simp only [unspace, List.flatMap_cons] at ih
        simp [unspace, hc, ← ih]

theorem spaced_spacedWords (s : Text) : Spaced (spacedWords s) := by
  induction s with
  | nil => exact List.isChain_nil
  | cons c s ih =>
    rw [spacedWords_cons]
    cases s with
    | nil =>
      by_cases hc : c = ' '
      · simp [hc, spacedWords, Spaced]
      · simp [hc, spacedWords, Spaced]
    | cons d s =>
      obtain ⟨w, ws, hw, -⟩ := spacedWords_first d s
      rw [hw] at ih ⊢
      have hgap : ∀ v : SpacedWord, v.gap = w.gap ∨ v.gap = w.gap + 1 → Spaced (v :: ws) := by
        intro v hv
        simp only [Spaced, List.isChain_cons] at ih ⊢
        refine ⟨fun y hy => ?_, ih.2⟩
        have hpos := ih.1 y hy
        omega
      by_cases hc : c = ' '
      · by_cases hd : d = ' '
        · simpa [hc, hd] using hgap ⟨[], w.gap + 1⟩ (Or.inr rfl)
        · simp only [Spaced] at ih
          simp [hc, hd, Spaced, ih]
      · simpa [hc] using hgap ⟨c :: w.body, w.gap⟩ (Or.inl rfl)

theorem flatten_packFrom (room later : Nat) (line : List SpacedWord) (used : Nat)
    (ws : List SpacedWord) :
    (packFrom room later line used ws).flatten = line.reverse ++ ws := by
  induction ws generalizing room line used with
  | nil => simp [packFrom]
  | cons w ws ih =>
    rw [packFrom]
    split
    · simp [ih]
    · simp [ih]

theorem flatten_pack (room later : Nat) (ws : List SpacedWord) :
    (pack room later ws).flatten = ws := by
  simp [pack, flatten_packFrom]

private theorem unspace_eq_lineText (l : List SpacedWord) :
    ∃ n, unspace l = lineText l ++ List.replicate n ' ' := by
  fun_induction lineText l with
  | case1 => exact ⟨0, rfl⟩
  | case2 w => exact ⟨w.gap, by simp [unspace]⟩
  | case3 w next ws ih =>
    obtain ⟨n, hn⟩ := ih
    refine ⟨n, ?_⟩
    have hcons : unspace (w :: next :: ws) =
        w.body ++ List.replicate w.gap ' ' ++ unspace (next :: ws) := rfl
    rw [hcons, hn]
    simp

theorem words_lineText (l : List SpacedWord) : words (lineText l) = words (unspace l) := by
  obtain ⟨n, hn⟩ := unspace_eq_lineText l
  rw [hn, words_append_of_blank _ (isBlank_replicate_space n)]

theorem words_unspace_append {ws vs : List SpacedWord} (h : Spaced (ws ++ vs)) :
    words (unspace (ws ++ vs)) = words (unspace ws) ++ words (unspace vs) := by
  rcases List.eq_nil_or_concat' ws with rfl | ⟨us, w, rfl⟩
  · rfl
  · cases vs with
    | nil => simp [unspace]
    | cons v vs =>
      have hpos : 0 < w.gap := by
        have hlast := (List.isChain_append.mp h).2.2
        exact hlast w (by simp) v (by simp)
      have hspaces : List.replicate w.gap ' ' ≠ [] := by
        simp only [ne_eq, List.replicate_eq_nil_iff]
        omega
      have hus : unspace (us ++ [w]) =
          unspace us ++ w.body ++ List.replicate w.gap ' ' := by
        simp [unspace]
      rw [unspace_append, hus, words_append_blanks _ hspaces (isBlank_replicate_space _),
        words_append_of_blank _ (isBlank_replicate_space _)]

private theorem flatMap_words_lines_of_flatten {ls : List (List SpacedWord)}
    (h : Spaced ls.flatten) : ls.flatMap (fun l => words (lineText l)) = words (unspace ls.flatten) := by
  induction ls with
  | nil => rfl
  | cons l ls ih =>
    have hrest : Spaced ls.flatten := List.IsChain.right_of_append h
    rw [List.flatMap_cons, ih hrest, words_lineText, List.flatten_cons, words_unspace_append h]

private theorem words_append_map_space (pre s : Text) :
    words (pre ++ s.map (fun c => if Character.isBlank c then ' ' else c)) = words (pre ++ s) := by
  induction s generalizing pre with
  | nil => rfl
  | cons c s ih =>
    by_cases hc : Character.isBlank c = true
    · have hrest := ih []
      simp only [List.nil_append] at hrest
      rw [List.map_cons, if_pos hc, words_append_blank pre (by decide), words_append_blank pre hc,
        hrest]
    · rw [List.map_cons, if_neg hc]
      simpa using ih (pre ++ [c])

@[simp] theorem words_flatten (s : Text) : words (flatten s) = words s := by
  rw [flatten, words_trim]
  have h := words_append_map_space [] (expandTabs s)
  simp only [List.nil_append] at h
  rw [h, words_expandTabs]

theorem flatMap_words_fill {initial subsequent : Text} (hi : Text.isBlank initial = true)
    (hs : Text.isBlank subsequent = true) (s : Text) (columns : Nat) :
    (fill s columns initial subsequent).flatMap words = words s := by
  have hspaced : Spaced (spacedWords (flatten s)) := spaced_spacedWords _
  simp only [fill]
  split
  · rename_i hempty
    have hflat : flatten s = [] := by simpa using hempty
    rw [← words_flatten s, hflat]
    rfl
  · have hcut : ∀ room later : Nat,
        (pack room later (spacedWords (flatten s))).flatMap (fun l => words (lineText l)) =
          words s := by
      intro room later
      have hflat := flatten_pack room later (spacedWords (flatten s))
      rw [flatMap_words_lines_of_flatten (by rw [hflat]; exact hspaced), hflat,
        unspace_spacedWords, words_flatten]
    have hwords := hcut (max columns 1 - width initial) (max columns 1 - width subsequent)
    split
    · rename_i hnil
      rw [hnil] at hwords
      exact hwords
    · rename_i first rest hcons
      rw [hcons] at hwords
      simp only [List.flatMap_cons, List.flatMap_map, words_blank_append hi,
        words_blank_append hs]
      exact hwords

end DocstringFormat.Text
