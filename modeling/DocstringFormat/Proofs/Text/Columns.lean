import DocstringFormat.Proofs.Text.Characters

/-!
How wide the lines of a filled text are.

Without escape characters widths add up (`width_append`).  Packing starts a new line before a word
that does not fit, so a packed line fits or is a single word (`exists_packFrom_eq`); so does every
line of a filled text together with its indentation (`exists_filled`).
-/

set_option autoImplicit false

namespace DocstringFormat.Text

section Widths

/-- The character that starts a terminal escape sequence. -/
def escapeChar : Char := '\x1b'

private theorem width_cons {c : Char} (hc : c ≠ escapeChar) (s : Text) :
    width (c :: s) = Character.displayWidth c + width s := by
  have hstep : WidthState.plain.step c = (Character.displayWidth c, .plain) := if_neg hc
  rw [width, widthFrom, hstep, width]

theorem width_append {s : Text} (hs : escapeChar ∉ s) (t : Text) :
    width (s ++ t) = width s + width t := by
  induction s with
  | nil => simp [width, widthFrom]
  | cons c s ih =>
    have hc : c ≠ escapeChar := fun h => hs (by simp [h])
    have hrest : escapeChar ∉ s := fun h => hs (List.mem_cons_of_mem _ h)
    rw [List.cons_append, width_cons hc, width_cons hc, ih hrest, Nat.add_assoc]

private theorem escapeChar_not_mem_spaces (n : Nat) : escapeChar ∉ List.replicate n ' ' := by
  intro h
  exact absurd (List.eq_of_mem_replicate h) (by decide)

private theorem width_spaces (n : Nat) : width (List.replicate n ' ') = n := by
  induction n with
  | zero => rfl
  | succ n ih =>
    have hspace : Character.displayWidth ' ' = 1 := by decide
    rw [List.replicate_succ, width_cons (by decide), ih, hspace, Nat.add_comm]

/-- The characters from the space to the tilde. -/
def IsPrintable (c : Char) : Prop :=
  32 ≤ c.toNat ∧ c.toNat ≤ 126

instance (c : Char) : Decidable (IsPrintable c) :=
  inferInstanceAs (Decidable (_ ∧ _))

theorem width_eq_length {s : Text} (h : Over IsPrintable s) : width s = s.length := by
  induction s with
  | nil => rfl
  | cons c s ih =>
    obtain ⟨⟨hlow, hhigh⟩, hs⟩ := over_cons.mp h
    have hc : c ≠ escapeChar := by
      rintro rfl
      exact absurd hlow (by decide)
    have hone : Character.displayWidth c = 1 := by
      have hcontrol : Character.isControl c = false := by
        have hnot : ¬ (c.toNat < 0x20 ∨ 0x7F ≤ c.toNat ∧ c.toNat < 0xA0) := by omega
        simpa [Character.isControl] using hnot
      rw [Character.displayWidth, hcontrol, if_neg Bool.false_ne_true, if_pos (by omega)]
    rw [width_cons hc, hone, ih hs, List.length_cons, Nat.add_comm]

end Widths

section Spacing

variable {indent : Text}

theorem isBlank_of_spaces (h : Over (· = ' ') indent) : isBlank indent = true := by
  refine List.all_eq_true.mpr fun c hc => ?_
  rw [h c hc]
  decide

theorem escapeChar_not_mem_of_spaces (h : Over (· = ' ') indent) : escapeChar ∉ indent := by
  intro hmem
  exact absurd (h _ hmem) (by decide)

def Spaces (s : Text) : Prop :=
  ∀ c ∈ s, Character.isBlank c = true → c = ' '

theorem Spaces.append {s t : Text} (hs : Spaces s) (ht : Spaces t) : Spaces (s ++ t) := by
  intro c hc
  rcases List.mem_append.mp hc with hc | hc
  · exact hs c hc
  · exact ht c hc

theorem Spaces.no_break {s : Text} (h : Spaces s) : '\n' ∉ s ∧ '\r' ∉ s :=
  ⟨fun hc => absurd (h _ hc (by decide)) (by decide),
    fun hc => absurd (h _ hc (by decide)) (by decide)⟩

theorem spaces_of_indent (h : Over (· = ' ') indent) : Spaces indent :=
  fun c hc _ => h c hc

theorem spaces_of_solid {s : Text} (h : Solid s) : Spaces s := by
  intro c hc hblank
  rw [h c hc] at hblank
  cases hblank

end Spacing

section Packing

def lineWidth : List SpacedWord → Nat
  | [] => 0
  | [w] => width w.body
  | w :: next :: ws => width w.body + w.gap + lineWidth (next :: ws)

def usedWidth : List SpacedWord → Nat
  | [] => 0
  | w :: ws => width w.body + w.gap + usedWidth ws

theorem lineWidth_concat (ws : List SpacedWord) (w : SpacedWord) :
    lineWidth (ws ++ [w]) = usedWidth ws + width w.body := by
  induction ws with
  | nil => simp [lineWidth, usedWidth]
  | cons v ws ih =>
    have hne : ws ++ [w] ≠ [] := by simp
    obtain ⟨u, us, hus⟩ := List.exists_cons_of_ne_nil hne
    rw [hus] at ih
    rw [List.cons_append, hus, lineWidth, ih, usedWidth]
    omega

theorem usedWidth_concat (ws : List SpacedWord) (w : SpacedWord) :
    usedWidth (ws ++ [w]) = usedWidth ws + width w.body + w.gap := by
  induction ws with
  | nil => simp [usedWidth]
  | cons v ws ih =>
    rw [List.cons_append, usedWidth, usedWidth, ih]
    omega

private theorem width_lineText {ws : List SpacedWord} (h : ∀ w ∈ ws, escapeChar ∉ w.body) :
    width (lineText ws) = lineWidth ws := by
  fun_induction lineText ws with
  | case1 => rfl
  | case2 w => rfl
  | case3 w next ws ih =>
    have hspaces : escapeChar ∉ w.body ++ List.replicate w.gap ' ' := by
      rw [List.mem_append, not_or]
      exact ⟨h w (by simp), escapeChar_not_mem_spaces w.gap⟩
    rw [width_append hspaces, width_append (h w (by simp)), width_spaces,
      ih fun v hv => h v (List.mem_cons_of_mem w hv), lineWidth]

def FitsRoom (room : Nat) (line : List SpacedWord) : Prop :=
  line.length ≤ 1 ∨ lineWidth line ≤ room

private theorem exists_packFrom_eq (room later : Nat) (line : List SpacedWord) (used : Nat)
    (ws : List SpacedWord) (hused : used = usedWidth line.reverse)
    (hline : FitsRoom room line.reverse) (hne : line ++ ws ≠ []) :
    ∃ first rest, packFrom room later line used ws = first :: rest ∧
      FitsRoom room first ∧ first ≠ [] ∧ ∀ l ∈ rest, FitsRoom later l ∧ l ≠ [] := by
  induction ws generalizing room line used with
  | nil =>
    refine ⟨line.reverse, [], rfl, hline, ?_, by simp⟩
    simpa using hne
  | cons w ws ih =>
    rw [packFrom]
    split
    · rename_i hfull
      have hbegun : line ≠ [] := by
        intro h
        simp [h] at hfull
      have hsingle : FitsRoom later [w].reverse := Or.inl (by simp)
      obtain ⟨first, rest, hpack, hfirst, hfirstNe, hrest⟩ :=
        ih later [w] (width w.body + w.gap) (by simp [usedWidth]) hsingle (by simp)
      refine ⟨line.reverse, first :: rest, by rw [hpack], hline, by simpa using hbegun, ?_⟩
      intro l hl
      rcases List.mem_cons.mp hl with rfl | hl
      · exact ⟨hfirst, hfirstNe⟩
      · exact hrest l hl
    · rename_i hfits
      refine ih room (w :: line) _ ?_ ?_ (by simp)
      · rw [List.reverse_cons, usedWidth_concat, hused]
      · rw [List.reverse_cons]
        cases line with
        | nil => exact Or.inl (by simp)
        | cons v line =>
          refine Or.inr ?_
          rw [lineWidth_concat, ← hused]
          simp only [List.isEmpty_cons, true_and, not_lt] at hfits
          exact hfits

end Packing

section Bodies

private theorem spacedWords_eq_nil {s : Text}
    (h : ∀ d tail w ws, s = d :: tail → spacedWords s = w :: ws → False) : spacedWords s = [] := by
  cases s with
  | nil => rfl
  | cons d tail =>
    cases hs : spacedWords (d :: tail) with
    | nil => rfl
    | cons w ws => exact (h d tail w ws rfl hs).elim

private theorem bodies_spacedWords (s : Text) :
    (∀ w ∈ spacedWords s, ' ' ∉ w.body) ∧ (∀ w ∈ (spacedWords s).tail, w.body ≠ []) ∧
      (s.head? ≠ some ' ' → ∀ w ∈ spacedWords s, w.body ≠ []) := by
  fun_induction spacedWords s with
  | case1 => simp
  | case2 tail w ws hws ih =>
    simp only [hws, List.tail_cons, List.mem_cons, forall_eq_or_imp] at ih ⊢
    simp only [if_true, List.mem_cons, forall_eq_or_imp, List.tail_cons]
    exact ⟨⟨by simp, ih.1.2⟩, ih.2.1, fun h => absurd rfl h⟩
  | case3 d tail w ws hd hws ih =>
    simp only [hws] at ih ⊢
    simp only [if_neg hd, List.mem_cons, forall_eq_or_imp, List.tail_cons] at ih ⊢
    have hne := ih.2.2 (by simpa using hd)
    exact ⟨⟨by simp, ih.1⟩, hne, fun h => absurd rfl h⟩
  | case4 rest hrest ih =>
    simp only [spacedWords_eq_nil hrest]
    cases rest <;> simp
  | case5 c hc d tail w ws hws ih =>
    simp only [hws] at ih ⊢
    simp only [List.mem_cons, forall_eq_or_imp, List.tail_cons, not_or] at ih ⊢
    refine ⟨⟨⟨Ne.symm hc, ih.1.1⟩, ih.1.2⟩, ih.2.1, fun _ => ⟨by simp, ih.2.1⟩⟩
  | case6 c rest hc hrest ih =>
    simp only [spacedWords_eq_nil hrest]
    cases rest <;> simp [Ne.symm hc]

structure Tight (s : Text) : Prop where
  ne_nil : s ≠ []
  head : ∀ c, s.head? = some c → Character.isBlank c = false
  last : ∀ c, s.getLast? = some c → Character.isBlank c = false
  blanks : Spaces s

def Sound (ws : List SpacedWord) : Prop :=
  ∀ w ∈ ws, w.body ≠ [] ∧ Solid w.body

private theorem tight_of_solid {s : Text} (hne : s ≠ []) (hs : Solid s) : Tight s where
  ne_nil := hne
  head c hc := hs c (List.mem_of_mem_head? hc)
  last c hc := hs c (List.mem_of_getLast? hc)
  blanks := spaces_of_solid hs

theorem Tight.append {s t : Text} (hs : Tight s) (ht : Tight t) (n : Nat) :
    Tight (s ++ List.replicate n ' ' ++ t) where
  ne_nil := by simp [hs.ne_nil]
  head c hc := by
    obtain ⟨d, r, rfl⟩ := List.exists_cons_of_ne_nil hs.ne_nil
    exact hs.head c hc
  last c hc := by
    obtain ⟨u, d, rfl⟩ := (List.eq_nil_or_concat' t).resolve_left ht.ne_nil
    rw [← List.append_assoc, List.getLast?_concat] at hc
    exact ht.last c (by rw [List.getLast?_concat, hc])
  blanks := (hs.blanks.append fun _ hc _ => List.eq_of_mem_replicate hc).append ht.blanks

theorem tight_lineText {ws : List SpacedWord} (hne : ws ≠ []) (h : Sound ws) :
    Tight (lineText ws) := by
  fun_induction lineText ws with
  | case1 => exact absurd rfl hne
  | case2 w =>
    obtain ⟨hbody, hsolid⟩ := h w (by simp)
    exact tight_of_solid hbody hsolid
  | case3 w next ws ih =>
    obtain ⟨hbody, hsolid⟩ := h w (by simp)
    have hrest := ih (by simp) fun v hv => h v (List.mem_cons_of_mem w hv)
    exact (tight_of_solid hbody hsolid).append hrest w.gap

theorem words_lineText_eq {ws : List SpacedWord} (h : Sound ws) (hspaced : Spaced ws) :
    words (lineText ws) = ws.map SpacedWord.body := by
  rw [words_lineText]
  induction ws with
  | nil => rfl
  | cons w ws ih =>
    obtain ⟨hbody, hsolid⟩ := h w (by simp)
    have hone : words (unspace [w]) = [w.body] := by
      simp only [unspace, List.flatMap_singleton]
      rw [words_append_of_blank _ (isBlank_replicate_space _), words_of_solid hbody hsolid]
    have hrest := ih (fun v hv => h v (List.mem_cons_of_mem w hv)) hspaced.tail
    rw [← List.singleton_append, words_unspace_append hspaced, hone, hrest]
    rfl

private theorem lineWidth_pos {ws : List SpacedWord} (hspaced : Spaced ws) (h : 1 < ws.length) :
    0 < lineWidth ws := by
  match ws with
  | [] | [_] => simp at h
  | w :: next :: ws =>
    have hgap : 0 < w.gap := (List.isChain_cons_cons.mp hspaced).1
    rw [lineWidth]
    omega

def FitsAfter (columns : Nat) (lead line : Text) : Prop :=
  (words line).length ≤ 1 ∨ width lead + width line ≤ columns

private theorem fits_lineText {ws : List SpacedWord} {columns : Nat} {lead : Text} (h : Sound ws)
    (hspaced : Spaced ws) (hescape : ∀ w ∈ ws, escapeChar ∉ w.body)
    (hfits : FitsRoom (columns - width lead) ws) :
    FitsAfter columns lead (lineText ws) := by
  rw [FitsAfter, words_lineText_eq h hspaced, List.length_map, width_lineText hescape]
  rcases hfits with hshort | hroom
  · exact Or.inl hshort
  · by_cases hlong : 1 < ws.length
    · have hpos := lineWidth_pos hspaced hlong
      refine Or.inr ?_
      omega
    · refine Or.inl ?_
      omega

end Bodies

section Filling

private theorem flatten_spec (s : Text) :
    Spaces (flatten s) ∧ (flatten s).head? ≠ some ' ' := by
  constructor
  · have hall : Over (fun c => Character.isBlank c = true → c = ' ')
        ((expandTabs s).map fun c => if Character.isBlank c then ' ' else c) := by
      intro c hc hblank
      obtain ⟨d, -, rfl⟩ := List.mem_map.mp hc
      split at hblank
      · rename_i hd
        rw [if_pos hd]
      · rename_i hd
        exact absurd hblank hd
    exact hall.trim
  · intro h
    exact absurd (head?_trim h) (by decide)

private theorem mem_of_mem_spacedWords {s : Text} {w : SpacedWord} (hw : w ∈ spacedWords s)
    {c : Char}
    (hc : c ∈ w.body) : c ∈ s := by
  rw [← unspace_spacedWords s]
  exact List.mem_flatMap.mpr ⟨w, hw, List.mem_append_left _ hc⟩

theorem sound_spacedWords (s : Text) : Sound (spacedWords (flatten s)) := by
  obtain ⟨hblanks, hhead⟩ := flatten_spec s
  obtain ⟨hspace, -, hne⟩ := bodies_spacedWords (flatten s)
  intro w hw
  refine ⟨hne hhead w hw, ?_⟩
  intro c hc
  by_contra hblank
  rw [Bool.not_eq_false] at hblank
  exact hspace w hw (hblanks c (mem_of_mem_spacedWords hw hc) hblank ▸ hc)

private theorem of_mem_pack {s : Text} {room later : Nat} {l : List SpacedWord}
    (hl : l ∈ pack room later (spacedWords (flatten s))) :
    Sound l ∧ Spaced l ∧ ∀ w ∈ l, ∀ c ∈ w.body, c ∈ flatten s := by
  have hcut := flatten_pack room later (spacedWords (flatten s))
  obtain ⟨before, after, hsplit⟩ := List.append_of_mem hl
  rw [hsplit, List.flatten_append, List.flatten_cons] at hcut
  have hmem : ∀ w ∈ l, w ∈ spacedWords (flatten s) := by
    intro w hw
    rw [← hcut]
    simp [hw]
  have hspaced := spaced_spacedWords (flatten s)
  rw [← hcut] at hspaced
  exact ⟨fun w hw => sound_spacedWords s w (hmem w hw),
    List.IsChain.left_of_append (List.IsChain.right_of_append hspaced),
    fun w hw c hc => mem_of_mem_spacedWords (hmem w hw) hc⟩

/-- The lines of a filled text, each without its indentation: the first, which fits after
`initial`, and the others, which fit after `subsequent`; a line that does not is one word. -/
structure Filled (s : Text) (columns : Nat) (initial subsequent first : Text) (rest : List Text) :
    Prop where
  eq : fill s columns initial subsequent = (initial ++ first) :: rest.map (subsequent ++ ·)
  words : words first ++ rest.flatMap words = words s
  tight : ∀ l ∈ first :: rest, Tight l
  first : FitsAfter columns initial first
  rest : ∀ l ∈ rest, FitsAfter columns subsequent l

/-- Filling a text that is not blank gives lines that fit or are single words. -/
theorem exists_filled {s : Text} (hs : words s ≠ []) (hescape : escapeChar ∉ s) {columns : Nat}
    (hcolumns : 0 < columns) {initial subsequent : Text} (hi : isBlank initial = true)
    (hsub : isBlank subsequent = true) :
    ∃ first rest, Filled s columns initial subsequent first rest := by
  have hflat : flatten s ≠ [] := by
    intro h
    rw [← words_flatten, h] at hs
    exact hs rfl
  have hne : [] ++ spacedWords (flatten s) ≠ [] := by
    intro h
    have hnil := unspace_spacedWords (flatten s)
    rw [← List.nil_append (spacedWords _), h] at hnil
    exact hflat hnil.symm
  have hplain : escapeChar ∉ flatten s := by
    have hover : Over (· ≠ escapeChar) (flatten s) :=
      Over.flatten (fun c hc h => hescape (h ▸ hc)) (by decide)
    exact fun h => hover _ h rfl
  obtain ⟨first, rest, hpack, hfirst, hfirstNe, hrest⟩ :=
    exists_packFrom_eq (columns - width initial) (columns - width subsequent) [] 0
      (spacedWords (flatten s)) rfl (Or.inl (by simp)) hne
  have hfill : fill s columns initial subsequent =
      (initial ++ lineText first) :: (rest.map lineText).map (subsequent ++ ·) := by
    have hempty : (flatten s).isEmpty = false := by simpa using hflat
    have hmax : max columns 1 = columns := Nat.max_eq_left hcolumns
    simp only [fill, hempty, Bool.false_eq_true, if_false, hmax, pack, hpack, List.map_map]
    rfl
  have hlines : ∀ l ∈ first :: rest, Sound l ∧ Spaced l ∧ ∀ w ∈ l, escapeChar ∉ w.body := by
    intro l hl
    rw [← hpack] at hl
    obtain ⟨hsound, hspaced, hchars⟩ := of_mem_pack hl
    exact ⟨hsound, hspaced, fun w hw h => hplain (hchars w hw _ h)⟩
  refine ⟨lineText first, rest.map lineText, hfill, ?_, ?_, ?_, ?_⟩
  · have hwords := flatMap_words_fill hi hsub s columns
    rw [hfill, List.flatMap_cons, words_blank_append hi, List.flatMap_map] at hwords
    simpa only [words_blank_append hsub] using hwords
  · intro t ht
    rw [← List.map_cons] at ht
    obtain ⟨l, hl, rfl⟩ := List.mem_map.mp ht
    refine tight_lineText ?_ (hlines l hl).1
    rcases List.mem_cons.mp hl with rfl | hl
    · exact hfirstNe
    · exact (hrest l hl).2
  · obtain ⟨hsound, hspaced, hbodies⟩ := hlines first (by simp)
    exact fits_lineText hsound hspaced hbodies hfirst
  · intro t ht
    obtain ⟨l, hl, rfl⟩ := List.mem_map.mp ht
    obtain ⟨hsound, hspaced, hbodies⟩ := hlines l (List.mem_cons_of_mem _ hl)
    exact fits_lineText hsound hspaced hbodies (hrest l hl).1

end Filling

end DocstringFormat.Text
