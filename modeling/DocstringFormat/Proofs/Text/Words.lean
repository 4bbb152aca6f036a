import DocstringFormat.Text.Line
import Mathlib.Data.List.Infix

/-!
Words of a text.

A word is a maximal run of characters that are not blank.  All facts about words come from two
equations: a blank separates the words before it from the words after it (`words_append_blank`),
and a text without blanks is one word (`words_of_solid`).  `squeeze` takes out every blank; it
joins the words.
-/

set_option autoImplicit false

namespace DocstringFormat.Text

/-- A text with all its blanks taken out. -/
def squeeze (s : Text) : Text :=
  s.filter (fun c => !Character.isBlank c)

def Solid (s : Text) : Prop :=
  ∀ c ∈ s, Character.isBlank c = false

@[simp] theorem squeeze_nil : squeeze [] = [] := rfl

@[simp] theorem squeeze_append (s t : Text) : squeeze (s ++ t) = squeeze s ++ squeeze t :=
  List.filter_append s t

theorem squeeze_eq_nil_iff {s : Text} : squeeze s = [] ↔ Text.isBlank s = true := by
  simp [squeeze, Text.isBlank]

theorem squeeze_of_blank {s : Text} (h : Text.isBlank s = true) : squeeze s = [] :=
  squeeze_eq_nil_iff.mpr h

theorem squeeze_of_solid {s : Text} (h : Solid s) : squeeze s = s := by
  simp only [squeeze, List.filter_eq_self]
  intro c hc
  simp [h c hc]

theorem isBlank_append (s t : Text) :
    Text.isBlank (s ++ t) = (Text.isBlank s && Text.isBlank t) := by
  simp [Text.isBlank]

theorem solid_append {s t : Text} : Solid (s ++ t) ↔ Solid s ∧ Solid t := by
  simp only [Solid, List.mem_append]
  constructor
  · intro h
    exact ⟨fun c hc => h c (Or.inl hc), fun c hc => h c (Or.inr hc)⟩
  · rintro ⟨hs, ht⟩ c (hc | hc)
    · exact hs c hc
    · exact ht c hc

@[simp] theorem words_nil : words [] = [] := rfl

private theorem words_cons (c : Char) (rest : Text) :
    words (c :: rest) =
      if Character.isBlank c then words rest
      else
        match rest, words rest with
        | d :: _, w :: ws => if Character.isBlank d then [c] :: w :: ws else (c :: w) :: ws
        | _, ws => [c] :: ws := rfl

theorem words_cons_blank {c : Char} (hc : Character.isBlank c = true) (s : Text) :
    words (c :: s) = words s := by
  rw [words_cons, if_pos hc]

private theorem words_cons_apart {c : Char} {s : Text} (hc : Character.isBlank c = false)
    (hs : ∀ d r, s = d :: r → Character.isBlank d = true) : words (c :: s) = [c] :: words s := by
  rw [words_cons, if_neg (by simp [hc])]
  cases s with
  | nil => rfl
  | cons d r =>
    have hd : Character.isBlank d = true := hs d r rfl
    cases hw : words (d :: r) with
    | nil => rfl
    | cons w ws => simp [hd]

theorem words_cons_solid {d : Char} (hd : Character.isBlank d = false) (s : Text) :
    ∃ w ws, words (d :: s) = (d :: w) :: ws := by
  rw [words_cons, if_neg (by simp [hd])]
  cases s with
  | nil => exact ⟨[], [], rfl⟩
  | cons e r =>
    cases hw : words (e :: r) with
    | nil => exact ⟨[], [], rfl⟩
    | cons w ws =>
      by_cases he : Character.isBlank e = true
      · exact ⟨[], w :: ws, by simp [he]⟩
      · exact ⟨w, ws, by simp [he]⟩

private theorem words_cons_within {c d : Char} {s w : Text} {ws : List Text}
    (hc : Character.isBlank c = false) (hd : Character.isBlank d = false) (hw : words (d :: s) = w :: ws) :
    words (c :: d :: s) = (c :: w) :: ws := by
  rw [words_cons, if_neg (by simp [hc]), hw]
  simp [hd]

theorem words_append_blank (s : Text) {c : Char} (hc : Character.isBlank c = true) (t : Text) :
    words (s ++ c :: t) = words s ++ words t := by
  induction s with
  | nil => exact words_cons_blank hc t
  | cons a s ih =>
    by_cases ha : Character.isBlank a = true
    · rw [List.cons_append, words_cons_blank ha, words_cons_blank ha, ih]
    · have ha' : Character.isBlank a = false := by simpa using ha
      cases s with
      | nil =>
        have hct : ∀ d r, c :: t = d :: r → Character.isBlank d = true := by
          rintro d r h
          cases h
          exact hc
        have hnil : ∀ d r, ([] : Text) = d :: r → Character.isBlank d = true := by
          intro d r h
          cases h
        simp only [List.cons_append, List.nil_append]
        rw [words_cons_apart ha' hct, words_cons_apart ha' hnil, words_cons_blank hc]
        rfl
      | cons d s =>
        by_cases hd : Character.isBlank d = true
        · have hds : ∀ (u : Text) e r, d :: u = e :: r → Character.isBlank e = true := by
            rintro u e r h
            cases h
            exact hd
          simp only [List.cons_append] at ih ⊢
          rw [words_cons_apart ha' (hds _), words_cons_apart ha' (hds _), ih]
          rfl
        · have hd' : Character.isBlank d = false := by simpa using hd
          obtain ⟨w, ws, hw⟩ := words_cons_solid hd' s
          rw [hw] at ih
          simp only [List.cons_append] at ih ⊢
          rw [words_cons_within ha' hd' ih, words_cons_within ha' hd' hw]
          rfl

theorem words_of_solid {s : Text} (hne : s ≠ []) (h : Solid s) : words s = [s] := by
  induction s with
  | nil => exact absurd rfl hne
  | cons c s ih =>
    have hc : Character.isBlank c = false := h c (List.mem_cons_self ..)
    cases s with
    | nil =>
      rw [words_cons_apart hc (by intro d r h; cases h)]
      rfl
    | cons d s =>
      have hd : Character.isBlank d = false := h d (by simp)
      have hds : Solid (d :: s) := fun e he => h e (List.mem_cons_of_mem _ he)
      rw [words_cons_within hc hd (ih (by simp) hds)]

theorem words_of_blank {s : Text} (h : Text.isBlank s = true) : words s = [] := by
  induction s with
  | nil => rfl
  | cons c s ih =>
    have hcs : Character.isBlank c = true ∧ Text.isBlank s = true := by
      simpa [Text.isBlank] using h
    rw [words_cons_blank hcs.1, ih hcs.2]

theorem words_blank_append {s : Text} (h : Text.isBlank s = true) (t : Text) :
    words (s ++ t) = words t := by
  induction s with
  | nil => rfl
  | cons c s ih =>
    have hcs : Character.isBlank c = true ∧ Text.isBlank s = true := by
      simpa [Text.isBlank] using h
    rw [List.cons_append, words_cons_blank hcs.1, ih hcs.2]

theorem words_append_of_blank (s : Text) {t : Text} (h : Text.isBlank t = true) :
    words (s ++ t) = words s := by
  cases t with
  | nil => rw [List.append_nil]
  | cons c t =>
    have hct : Character.isBlank c = true ∧ Text.isBlank t = true := by
      simpa [Text.isBlank] using h
    rw [words_append_blank s hct.1, words_of_blank hct.2, List.append_nil]

theorem words_append_blanks (s : Text) {g : Text} (hne : g ≠ []) (hg : Text.isBlank g = true)
    (t : Text) : words (s ++ g ++ t) = words s ++ words t := by
  cases g with
  | nil => exact absurd rfl hne
  | cons c g =>
    have hcg : Character.isBlank c = true ∧ Text.isBlank g = true := by
      simpa [Text.isBlank] using hg
    rw [List.append_assoc, List.cons_append, words_append_blank s hcg.1,
      words_blank_append hcg.2]

private theorem solid_or_split (s : Text) :
    Solid s ∨ ∃ t c w, s = t ++ c :: w ∧ Character.isBlank c = true ∧ Solid w := by
  induction s with
  | nil => exact Or.inl (by intro c hc; cases hc)
  | cons a s ih =>
    rcases ih with hs | ⟨t, c, w, rfl, hc, hw⟩
    · by_cases ha : Character.isBlank a = true
      · exact Or.inr ⟨[], a, s, rfl, ha, hs⟩
      · refine Or.inl ?_
        intro c hc
        rcases List.mem_cons.mp hc with rfl | hc
        · simpa using ha
        · exact hs c hc
    · exact Or.inr ⟨a :: t, c, w, rfl, hc, hw⟩

theorem word_induction {P : Text → Prop} (solid : ∀ s, Solid s → P s)
    (add : ∀ t c w, Character.isBlank c = true → Solid w → P t → P (t ++ c :: w)) (s : Text) : P s := by
  obtain ⟨n, hn⟩ : ∃ n, s.length = n := ⟨_, rfl⟩
  induction n using Nat.strong_induction_on generalizing s with
  | _ n ih =>
    rcases solid_or_split s with hs | ⟨t, c, w, rfl, hc, hw⟩
    · exact solid s hs
    · refine add t c w hc hw (ih t.length ?_ t rfl)
      simp only [List.length_append, List.length_cons] at hn
      omega

theorem flatten_words (s : Text) : (words s).flatten = squeeze s := by
  induction s using word_induction with
  | solid s hs =>
    by_cases hne : s = []
    · subst hne
      rfl
    · rw [words_of_solid hne hs, squeeze_of_solid hs]
      simp
  | add t c w hc hw ih =>
    have hcw : squeeze (c :: w) = squeeze w := by simp [squeeze, hc]
    by_cases hne : w = []
    · subst hne
      rw [words_append_blank t hc, squeeze_append, hcw, ← ih]
      simp
    · rw [words_append_blank t hc, squeeze_append, hcw, words_of_solid hne hw,
        squeeze_of_solid hw, ← ih]
      simp

theorem flatten_flatMap_words (ls : List Text) :
    (ls.flatMap words).flatten = ls.flatMap squeeze := by
  induction ls with
  | nil => rfl
  | cons l ls ih => simp [flatten_words, ih]

theorem squeeze_eq_of_words {s t : Text} (h : words s = words t) : squeeze s = squeeze t := by
  rw [← flatten_words, ← flatten_words, h]

theorem mem_words {s w : Text} (h : w ∈ words s) : w ≠ [] ∧ Solid w ∧ w <:+: s := by
  induction s using word_induction with
  | solid s hs =>
    by_cases hne : s = []
    · subst hne
      cases h
    · rw [words_of_solid hne hs, List.mem_singleton] at h
      subst h
      exact ⟨hne, hs, List.infix_rfl⟩
  | add t c v hc hv ih =>
    rw [words_append_blank t hc, List.mem_append] at h
    rcases h with h | h
    · obtain ⟨hne, hw, hin⟩ := ih h
      exact ⟨hne, hw, hin.trans (List.infix_append' [] t (c :: v))⟩
    · by_cases hne : v = []
      · subst hne
        cases h
      · rw [words_of_solid hne hv, List.mem_singleton] at h
        subst h
        exact ⟨hne, hv, ⟨t ++ [c], [], by simp⟩⟩

theorem dropEndWhile_append (p : Char → Bool) (s : Text) :
    dropEndWhile p s ++ (s.reverse.takeWhile p).reverse = s := by
  rw [dropEndWhile, ← List.reverse_append, List.takeWhile_append_dropWhile, List.reverse_reverse]

theorem dropEndWhile_isPrefix (p : Char → Bool) (s : Text) : dropEndWhile p s <+: s :=
  ⟨_, dropEndWhile_append p s⟩

theorem trimStart_eq_cons {s r : Text} {c : Char} (h : trimStart s = c :: r) :
    Character.isBlank c = false := by
  have hhead := List.head?_dropWhile_not Character.isBlank s
  rw [trimStart] at h
  simpa [h] using hhead

theorem leadingBlanks_append_trimStart (s : Text) : leadingBlanks s ++ trimStart s = s :=
  List.takeWhile_append_dropWhile

theorem isBlank_takeWhile (s : Text) : Text.isBlank (s.takeWhile Character.isBlank) = true :=
  List.all_takeWhile

theorem isBlank_leadingBlanks (s : Text) : Text.isBlank (leadingBlanks s) = true :=
  isBlank_takeWhile s

theorem isBlank_reverse (s : Text) : Text.isBlank s.reverse = Text.isBlank s := by
  simp [Text.isBlank]

theorem getLast?_dropEndWhile {p : Char → Bool} {s : Text} {c : Char}
    (h : (dropEndWhile p s).getLast? = some c) : p c = false := by
  have hhead := List.head?_dropWhile_not p s.reverse
  rw [dropEndWhile, List.getLast?_reverse] at h
  simpa [h] using hhead

theorem getLast?_trimEnd {s : Text} {c : Char} (h : (trimEnd s).getLast? = some c) :
    Character.isBlank c = false :=
  getLast?_dropEndWhile h

theorem head?_trim {s : Text} {c : Char} (h : (trim s).head? = some c) :
    Character.isBlank c = false := by
  obtain ⟨r, hr⟩ := List.head?_eq_some_iff.mp h
  obtain ⟨t, ht⟩ : trim s <+: trimStart s := dropEndWhile_isPrefix _ _
  rw [hr, List.cons_append] at ht
  exact trimStart_eq_cons ht.symm

@[simp] theorem words_trimStart (s : Text) : words (trimStart s) = words s := by
  conv => rhs; rw [← leadingBlanks_append_trimStart s]
  rw [words_blank_append (isBlank_leadingBlanks s)]

@[simp] theorem words_trimEnd (s : Text) : words (trimEnd s) = words s := by
  have htail : Text.isBlank (s.reverse.takeWhile Character.isBlank).reverse = true := by
    rw [isBlank_reverse]
    exact isBlank_takeWhile _
  conv => rhs; rw [← dropEndWhile_append Character.isBlank s]
  rw [words_append_of_blank _ htail]
  rfl

@[simp] theorem words_trim (s : Text) : words (trim s) = words s := by
  rw [trim, words_trimEnd, words_trimStart]

theorem words_join {sep : Text} (hne : sep ≠ []) (hsep : Text.isBlank sep = true)
    (ls : List Text) : words (join sep ls) = ls.flatMap words := by
  induction ls with
  | nil => rfl
  | cons l ls ih =>
    cases ls with
    | nil => simp [join]
    | cons m ls =>
      rw [join, words_append_blanks l hne hsep, ih]
      rfl

@[simp] theorem words_unlines (ls : List Text) : words (unlines ls) = ls.flatMap words :=
  words_join (by simp) (by decide) ls

@[simp] theorem words_unwrap (s : Text) : words (unwrap s) = words s := by
  rw [unwrap, words_join (by simp) (by decide)]
  have hword : ∀ w ∈ words s, words w = [w] := by
    intro w hw
    obtain ⟨hne, hsolid, -⟩ := mem_words hw
    exact words_of_solid hne hsolid
  rw [List.flatMap_congr hword]
  simp

private theorem solid_reverse {s : Text} (h : Solid s) : Solid s.reverse :=
  fun c hc => h c (List.mem_reverse.mp hc)

private theorem words_reverse (s : Text) :
    words s.reverse = ((words s).map List.reverse).reverse := by
  induction s using word_induction with
  | solid s hs =>
    by_cases hne : s = []
    · subst hne
      rfl
    · rw [words_of_solid hne hs, words_of_solid (by simpa using hne) (solid_reverse hs)]
      simp
  | add t c w hc hw ih =>
    have hlast : words w.reverse = ((words w).map List.reverse).reverse := by
      by_cases hne : w = []
      · subst hne
        rfl
      · rw [words_of_solid hne hw, words_of_solid (by simpa using hne) (solid_reverse hw)]
        simp
    rw [List.reverse_append, List.reverse_cons, List.append_assoc, List.singleton_append,
      words_append_blank _ hc, words_append_blank _ hc, ih, hlast]
    simp

theorem words_solid_append {b s w : Text} {ws : List Text} (hb : Solid b)
    (hs : ∀ c, s.head? = some c → Character.isBlank c = false) (h : words s = w :: ws) :
    words (b ++ s) = (b ++ w) :: ws := by
  induction b with
  | nil => exact h
  | cons c b ih =>
    have hbs : Solid b := fun d hd => hb d (List.mem_cons_of_mem _ hd)
    have hrest := ih hbs
    cases hnext : b ++ s with
    | nil =>
      rw [hnext] at hrest
      cases hrest
    | cons d r =>
      have hd : Character.isBlank d = false := by
        cases b with
        | nil => exact hs d (by rw [← List.nil_append s, hnext]; rfl)
        | cons e b =>
          obtain ⟨rfl, -⟩ := List.cons.inj hnext
          exact hbs e (by simp)
      rw [hnext] at hrest
      rw [List.cons_append, hnext, words_cons_within (hb c (by simp)) hd hrest]
      rfl

theorem words_append_of_ended {u : Text} (hu : ∀ c, u.getLast? = some c → Character.isBlank c = true)
    (v : Text) : words (u ++ v) = words u ++ words v := by
  rcases List.eq_nil_or_concat' u with rfl | ⟨t, c, rfl⟩
  · rfl
  · have hc : Character.isBlank c = true := hu c (by simp)
    rw [List.append_assoc, List.singleton_append, words_append_blank t hc, words_append_blank t hc,
      words_nil, List.append_nil]

theorem exists_last_run (s : Text) :
    ∃ u w, s = u ++ w ∧ Solid w ∧ ∀ c, u.getLast? = some c → Character.isBlank c = true := by
  rcases solid_or_split s with hs | ⟨t, c, w, rfl, hc, hw⟩
  · exact ⟨[], s, rfl, hs, by simp⟩
  · refine ⟨t ++ [c], w, by simp, hw, ?_⟩
    intro d hd
    rw [List.getLast?_concat, Option.some_inj] at hd
    rw [← hd]
    exact hc

theorem words_append_run {u w b : Text} (hu : ∀ c, u.getLast? = some c → Character.isBlank c = true)
    (hw : Solid w) (hb : Solid b) (hne : b ≠ []) : words (u ++ w ++ b) = words u ++ [w ++ b] := by
  have hsolid : Solid (w ++ b) := solid_append.mpr ⟨hw, hb⟩
  rw [List.append_assoc, words_append_of_ended hu, words_of_solid (by simp [hne]) hsolid]

theorem exists_last_run_of_words {s t b : Text} (hb : Solid b) (hne : b ≠ [])
    (h : words (s ++ b) = words (t ++ b)) :
    ∃ u v w, s = u ++ w ∧ t = v ++ w ∧ Solid w ∧
      (∀ c, u.getLast? = some c → Character.isBlank c = true) ∧
      ∀ c, v.getLast? = some c → Character.isBlank c = true := by
  obtain ⟨u, w, rfl, hw, hu⟩ := exists_last_run s
  obtain ⟨v, w', rfl, hw', hv⟩ := exists_last_run t
  rw [words_append_run hu hw hb hne, words_append_run hv hw' hb hne] at h
  have hrun : w ++ b = w' ++ b := by simpa using (List.append_inj' h rfl).2
  obtain rfl := List.append_cancel_right hrun
  exact ⟨u, v, w, rfl, rfl, hw, hu, hv⟩

theorem exists_eq_append_of_words {s t b : Text} (hb : Solid b) (hne : b ≠ [])
    (hlast : ∀ c, s.getLast? = some c → Character.isBlank c = false)
    (h : words s = words (t ++ b)) : ∃ x, s = x ++ b ∧ words x = words t := by
  obtain ⟨u, w, rfl, hw, hu⟩ := exists_last_run t
  obtain ⟨u', w', rfl, hw', hu'⟩ := exists_last_run s
  have hright := words_append_run hu hw hb hne
  have hw'ne : w' ≠ [] := by
    rintro rfl
    rw [List.append_nil] at h hlast
    cases hl : u'.getLast? with
    | none =>
      rw [List.getLast?_eq_none_iff] at hl
      rw [hl, hright] at h
      simp at h
    | some c =>
      have hblank := hu' c hl
      rw [hlast c hl] at hblank
      cases hblank
  rw [words_append_of_ended hu', words_of_solid hw'ne hw', hright] at h
  obtain ⟨huw, hrun⟩ := List.append_inj' h rfl
  obtain rfl : w' = w ++ b := by simpa using hrun
  refine ⟨u' ++ w, by simp, ?_⟩
  rw [words_append_of_ended hu', words_append_of_ended hu, huw]

theorem exists_eq_append_of_words' {s t a : Text} (ha : Solid a) (hne : a ≠ [])
    (hfirst : ∀ c, s.head? = some c → Character.isBlank c = false)
    (h : words s = words (a ++ t)) : ∃ x, s = a ++ x ∧ words x = words t := by
  have hrev : words s.reverse = words (t.reverse ++ a.reverse) := by
    rw [← List.reverse_append, words_reverse, words_reverse, h]
  obtain ⟨x, hx, hwords⟩ := exists_eq_append_of_words (solid_reverse ha) (by simpa using hne)
    (by simpa using hfirst) hrev
  refine ⟨x.reverse, ?_, ?_⟩
  · have hs := congrArg List.reverse hx
    simpa using hs
  · rw [words_reverse, hwords, words_reverse]
    simp

theorem exists_split_of_words {s : Text} {ws vs : List Text} (hne : ws ≠ [])
    (h : words s = ws ++ vs) :
    ∃ a b, s = a ++ b ∧ words a = ws ∧ words b = vs ∧
      ∀ c, a.getLast? = some c → Character.isBlank c = false := by
  induction s using word_induction generalizing vs with
  | solid s hs =>
    by_cases hnil : s = []
    · subst hnil
      exact absurd (List.append_eq_nil_iff.mp h.symm).1 hne
    · rw [words_of_solid hnil hs] at h
      rcases List.append_eq_singleton_iff.mp h.symm with ⟨hws, -⟩ | ⟨rfl, rfl⟩
      · exact absurd hws hne
      · refine ⟨s, [], by simp, words_of_solid hnil hs, rfl, ?_⟩
        intro c hc
        exact hs c (List.mem_of_getLast? hc)
  | add t c w hc hw ih =>
    rw [words_append_blank t hc] at h
    by_cases hnil : w = []
    · subst hnil
      rw [words_nil, List.append_nil] at h
      obtain ⟨a, b, rfl, ha, hb, hlast⟩ := ih h
      refine ⟨a, b ++ [c], by simp, ha, ?_, hlast⟩
      rw [words_append_of_blank b (by simpa [Text.isBlank] using hc), hb]
    · rw [words_of_solid hnil hw] at h
      rcases List.eq_nil_or_concat' vs with rfl | ⟨us, v, rfl⟩
      · rw [List.append_nil] at h
        refine ⟨t ++ c :: w, [], by simp, ?_, rfl, ?_⟩
        · rw [words_append_blank t hc, words_of_solid hnil hw, h]
        · intro d hd
          obtain ⟨x, e, rfl⟩ := (List.eq_nil_or_concat' w).resolve_left hnil
          have hde : e = d := by
            rw [← List.cons_append, ← List.append_assoc, List.getLast?_concat] at hd
            exact Option.some_inj.mp hd
          exact hw d (by simp [← hde])
      · rw [← List.append_assoc] at h
        obtain ⟨ht, hv⟩ := List.append_inj' h rfl
        obtain rfl : w = v := by simpa using hv
        obtain ⟨a, b, rfl, ha, hb, hlast⟩ := ih ht
        refine ⟨a, b ++ c :: w, by simp, ha, ?_, hlast⟩
        rw [words_append_blank b hc, hb, words_of_solid hnil hw]

end DocstringFormat.Text
