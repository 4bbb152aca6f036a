import DocstringFormat.Proofs.Text.Margin

/-!
Blanks at the ends of lines.

A text is clean when none of its lines ends in a blank.  Lines that are written behind a lead are
clean but for the lead: one that holds a line feed brings lines of its own along, and the blanks that
these end in are not the writer's.  `CleanBut` says that there are no others.  It passes through
every way of putting texts together, whatever the leads are (`CleanBut.append`, `CleanBut.prepend`,
`CleanBut.trim`, `cleanBut_unlines`), and settles which of the texts are clean
(`CleanBut.clean_iff`).
-/

set_option autoImplicit false

namespace DocstringFormat.Text

/-- No line of a text ends in a blank. -/
def Clean (s : Text) : Prop :=
  ∀ line ∈ split (· == '\n') s, trimEnd line = line

instance (s : Text) : Decidable (Clean s) :=
  inferInstanceAs (Decidable (∀ line ∈ _, _))

/-- Whether the line that `c` stands on ends in `c`, a blank, when the text goes on with `rest`. -/
def LooseEnd (c : Char) (rest : Text) : Prop :=
  Character.isBlank c = true ∧ c ≠ '\n' ∧ ∀ d, rest.head? = some d → d = '\n'

/-- Every blank that a line ends in stands inside one of the leads, which is there right after a line
feed. -/
def CleanBut (leads : List Text) (s : Text) : Prop :=
  ∀ a c b, s = a ++ c :: b → LooseEnd c b →
    ∃ x y, x ++ c :: '\n' :: y ∈ leads ∧ '\n' :: x <:+ a ∧ '\n' :: y <+: b

/-- Whether some line of a lead is not empty, the last one aside. -/
def Ragged (lead : Text) : Prop :=
  ∃ c, c ≠ '\n' ∧ [c, '\n'] <:+: lead

section Clean

variable {s : Text} {c : Char}

private theorem trimEnd_eq_self_iff :
    trimEnd s = s ↔ ∀ c, s.getLast? = some c → Character.isBlank c = false := by
  constructor
  · intro h c hc
    rw [← h] at hc
    exact getLast?_trimEnd hc
  · exact trimEnd_eq_self

theorem trim_blank_append {g : Text} (hg : isBlank g = true) (s : Text) : trim (g ++ s) = trim s := by
  have hstart : trimStart (g ++ s) = trimStart s :=
    List.dropWhile_append_of_pos (List.all_eq_true.mp hg)
  rw [trim, hstart, trim]

private theorem exists_split_eq_cons (s : Text) :
    ∃ p ps, split (· == '\n') s = p :: ps ∧ (p = [] ↔ ∀ d, s.head? = some d → d = '\n') := by
  cases s with
  | nil => exact ⟨[], [], rfl, by simp⟩
  | cons c s =>
    rw [split]
    by_cases hc : c = '\n'
    · exact ⟨[], split (· == '\n') s, by simp [hc], by simp [hc]⟩
    · simp only [beq_iff_eq, if_neg hc]
      split
      · exact ⟨[c], [], rfl, by simp [hc]⟩
      · rename_i p ps hsplit
        exact ⟨c :: p, ps, rfl, by simp [hc]⟩

private theorem clean_cons : Clean (c :: s) ↔ ¬ LooseEnd c s ∧ Clean s := by
  unfold Clean
  by_cases hc : c = '\n'
  · subst hc
    have hloose : ¬ LooseEnd '\n' s := fun h => h.2.1 rfl
    have hnil : trimEnd [] = [] := rfl
    simp [split, hloose, hnil]
  · obtain ⟨p, ps, hsplit, hnil⟩ := exists_split_eq_cons s
    have hcons : split (· == '\n') (c :: s) = (c :: p) :: ps := by
      simp [split, hc, hsplit]
    rw [hcons, hsplit, List.forall_mem_cons, List.forall_mem_cons, ← and_assoc]
    refine and_congr_left fun _ => ?_
    rw [trimEnd_eq_self_iff, trimEnd_eq_self_iff]
    cases p with
    | nil =>
      have hloose : LooseEnd c s ↔ Character.isBlank c = true :=
        ⟨fun h => h.1, fun h => ⟨h, hc, hnil.mp rfl⟩⟩
      simp [hloose]
    | cons d p =>
      have hloose : ¬ LooseEnd c s := fun h => absurd (hnil.mpr h.2.2) (by simp)
      simp [hloose]

theorem clean_iff : Clean s ↔ ∀ a c b, s = a ++ c :: b → ¬ LooseEnd c b := by
  induction s with
  | nil => simp [Clean, split, trimEnd, dropEndWhile]
  | cons d s ih =>
    rw [clean_cons, ih]
    constructor
    · rintro ⟨hloose, hrest⟩ a c b h
      cases a with
      | nil =>
        obtain ⟨rfl, rfl⟩ : d = c ∧ s = b := by simpa using h
        exact hloose
      | cons e a => exact hrest a c b (List.cons.inj h).2
    · intro h
      exact ⟨h [] d s rfl, fun a c b hs => h (d :: a) c b (by rw [hs]; rfl)⟩

end Clean

section CleanBut

variable {leads : List Text} {s t a b g lead : Text} {c : Char}

theorem LooseEnd.of_append (h : LooseEnd c (a ++ b)) : LooseEnd c a := by
  refine ⟨h.1, h.2.1, fun d hd => h.2.2 d ?_⟩
  rw [List.head?_append, hd]
  rfl

theorem CleanBut.append (ha : CleanBut leads a) (hb : CleanBut leads b) :
    CleanBut leads (a ++ b) := by
  intro u c v h hloose
  rcases List.append_eq_append_iff.mp h with ⟨m, rfl, hm⟩ | ⟨m, rfl, hm⟩
  · obtain ⟨x, y, hlead, hx, hy⟩ := hb m c v hm hloose
    exact ⟨x, y, hlead, hx.trans (List.suffix_append a m), hy⟩
  · cases m with
    | nil =>
      obtain ⟨x, y, hlead, hx, hy⟩ := hb [] c v hm.symm hloose
      exact ⟨x, y, hlead, hx.trans List.nil_suffix, hy⟩
    | cons d m =>
      obtain ⟨rfl, rfl⟩ := List.cons.inj hm
      obtain ⟨x, y, hlead, hx, hy⟩ := ha u c m rfl hloose.of_append
      exact ⟨x, y, hlead, hx, hy.trans (List.prefix_append m b)⟩

/-- A text that is clean but for leads stays so behind a text whose lines, the last one aside, are no
others. -/
theorem CleanBut.prepend (ht : CleanBut leads t) (hne : t ≠ []) (hhead : t.head? ≠ some '\n')
    (hg : ∀ a c y, g = a ++ c :: '\n' :: y → c ≠ '\n' →
      ∃ x, x ++ c :: '\n' :: y ∈ leads ∧ '\n' :: x <:+ a) :
    CleanBut leads (g ++ t) := by
  intro u c v h hloose
  rcases List.append_eq_append_iff.mp h with ⟨m, rfl, hm⟩ | ⟨m, rfl, hm⟩
  · obtain ⟨x, y, hlead, hx, hy⟩ := ht m c v hm hloose
    exact ⟨x, y, hlead, hx.trans (List.suffix_append g m), hy⟩
  · match m with
    | [] =>
      obtain ⟨x, y, hlead, hx, hy⟩ := ht [] c v hm.symm hloose
      exact ⟨x, y, hlead, hx.trans List.nil_suffix, hy⟩
    | [d] =>
      -- The blank would be the last character of `g`, but `t` does not go on with a line feed.
      obtain ⟨rfl, rfl⟩ := List.cons.inj hm
      obtain ⟨e, rest, rfl⟩ := List.exists_cons_of_ne_nil hne
      exact absurd (by rw [← hloose.2.2 e rfl]; rfl) hhead
    | d :: e :: m =>
      obtain ⟨rfl, rfl⟩ := List.cons.inj hm
      obtain rfl := hloose.2.2 e rfl
      obtain ⟨x, hlead, hx⟩ := hg u c m rfl hloose.2.1
      exact ⟨x, m, hlead, hx, List.prefix_append ('\n' :: m) t⟩

theorem CleanBut.behind_lead (ht : CleanBut leads t) (hne : t ≠ []) (hhead : t.head? ≠ some '\n')
    (hlead : lead ∈ leads) : CleanBut leads ('\n' :: (lead ++ t)) := by
  rw [← List.cons_append]
  refine ht.prepend hne hhead ?_
  intro a c y h hc
  cases a with
  | nil => exact absurd (List.cons.inj h).1.symm hc
  | cons d a =>
    obtain ⟨rfl, rfl⟩ := List.cons.inj h
    exact ⟨a, hlead, List.suffix_rfl⟩

theorem CleanBut.on_line (ht : CleanBut leads t) (hne : t ≠ []) (hhead : t.head? ≠ some '\n')
    (hg : '\n' ∉ g) : CleanBut leads (g ++ t) := by
  refine ht.prepend hne hhead ?_
  rintro a c y rfl
  simp at hg

theorem cleanBut_newline : CleanBut leads ['\n'] := by
  intro a c b h hloose
  obtain ⟨rfl, -⟩ : c = '\n' ∧ _ := by
    cases a with
    | nil => exact ⟨(List.cons.inj h).1.symm, trivial⟩
    | cons d a => simp at h
  exact absurd rfl hloose.2.1

theorem cleanBut_nil : CleanBut leads [] := by
  intro a c b h
  simp at h

theorem cleanBut_unlines_cons {ls : List Text} (ht : CleanBut leads t)
    (hls : ∀ l ∈ ls, CleanBut leads ('\n' :: l)) : CleanBut leads (unlines (t :: ls)) := by
  induction ls generalizing t with
  | nil => exact ht
  | cons l ls ih =>
    have hrest := ih (hls l (by simp)) fun k hk => hls k (List.mem_cons_of_mem l hk)
    have hline : unlines (('\n' :: l) :: ls) = '\n' :: unlines (l :: ls) :=
      unlines_cons_append ['\n'] l ls
    rw [hline] at hrest
    rw [unlines_cons_cons]
    exact ht.append hrest

theorem cleanBut_unlines {ls : List Text} (hls : ∀ l ∈ ls, CleanBut leads ('\n' :: l)) :
    CleanBut leads ('\n' :: unlines ls) := by
  cases ls with
  | nil => exact cleanBut_newline
  | cons l ls =>
    rw [← List.singleton_append, ← unlines_cons_append]
    exact cleanBut_unlines_cons (hls l (by simp)) fun k hk => hls k (List.mem_cons_of_mem l hk)

variable (hleads : ∀ lead ∈ leads, isBlank lead = true)
include hleads

private theorem CleanBut.of_append_right (h : CleanBut leads (g ++ s))
    (hhead : ∀ c, s.head? = some c → Character.isBlank c = false) : CleanBut leads s := by
  rintro a c b rfl hloose
  obtain ⟨x, y, hlead, ⟨u, hu⟩, hy⟩ := h (g ++ a) c b (by simp) hloose
  refine ⟨x, y, hlead, ?_, hy⟩
  rcases List.append_eq_append_iff.mp hu with ⟨m, rfl, hm⟩ | ⟨m, rfl, hm⟩
  · cases m with
    | nil =>
      rw [List.nil_append] at hm
      rw [hm]
    | cons d m =>
      rw [List.cons_append] at hm
      obtain ⟨-, rfl⟩ := List.cons.inj hm
      have hblank : isBlank (a ++ [c]) = true := by
        have hall := hleads _ hlead
        rw [List.append_assoc, isBlank_append, Bool.and_eq_true] at hall
        exact isBlank_of_isPrefix ⟨'\n' :: y, by simp⟩ hall.2
      have hne : a ++ [c] ≠ [] := by simp
      obtain ⟨d, r, hr⟩ := List.exists_cons_of_ne_nil hne
      have hd := List.all_eq_true.mp hblank d (by rw [hr]; simp)
      rw [hhead d (by rw [← List.singleton_append, ← List.append_assoc, hr]; rfl)] at hd
      cases hd
  · exact ⟨m, hm.symm⟩

theorem CleanBut.of_append_left (h : CleanBut leads (s ++ g))
    (hlast : ∀ c, s.getLast? = some c → Character.isBlank c = false) : CleanBut leads s := by
  rintro a c b rfl hloose
  have hne : b ≠ [] := by
    rintro rfl
    have hc := hlast c (by simp)
    rw [hloose.1] at hc
    cases hc
  have hloose' : LooseEnd c (b ++ g) := by
    refine ⟨hloose.1, hloose.2.1, fun d hd => hloose.2.2 d ?_⟩
    rwa [List.head?_append_of_ne_nil _ hne] at hd
  obtain ⟨x, y, hlead, hx, hy⟩ := h a c (b ++ g) (by simp) hloose'
  refine ⟨x, y, hlead, hx, ?_⟩
  rcases List.prefix_or_prefix_of_prefix hy (List.prefix_append b g) with hle | hle
  · exact hle
  · have hblank : isBlank b = true := by
      have hall := hleads _ hlead
      rw [← List.singleton_append, ← List.append_assoc, isBlank_append, Bool.and_eq_true] at hall
      exact isBlank_of_isPrefix hle hall.2
    obtain ⟨r, d, rfl⟩ := (List.eq_nil_or_concat' b).resolve_left hne
    have hd := List.all_eq_true.mp hblank d (by simp)
    rw [hlast d (by rw [← List.cons_append, ← List.append_assoc, List.getLast?_concat])] at hd
    cases hd

theorem CleanBut.trimEnd (h : CleanBut leads s) : CleanBut leads (trimEnd s) := by
  obtain ⟨g, -, hg⟩ := exists_trimEnd_append s
  rw [hg] at h
  exact h.of_append_left hleads fun c hc => getLast?_trimEnd hc

theorem CleanBut.trim (h : CleanBut leads s) : CleanBut leads (trim s) := by
  rw [← leadingBlanks_append_trimStart s] at h
  refine CleanBut.trimEnd hleads (h.of_append_right hleads ?_)
  intro c hc
  have hhead := List.head?_dropWhile_not Character.isBlank s
  rw [Text.trimStart] at hc
  simpa [hc] using hhead

theorem CleanBut.newline_trimEnd (h : CleanBut leads ('\n' :: (s ++ g))) :
    CleanBut leads ('\n' :: Text.trimEnd s) := by
  by_cases hnil : Text.trimEnd s = []
  · rw [hnil]
    exact cleanBut_newline
  · obtain ⟨b, -, hb⟩ := exists_trimEnd_append s
    rw [hb, List.append_assoc, ← List.cons_append] at h
    refine h.of_append_left hleads fun c hc => ?_
    rw [List.getLast?_cons_of_ne_nil hnil] at hc
    exact getLast?_trimEnd hc

/-- What is clean but for leads is clean exactly if none of the ragged ones stands in it after a line
feed. -/
theorem CleanBut.clean_iff (h : CleanBut leads s) :
    Clean s ↔ ∀ lead ∈ leads, Ragged lead → ¬ '\n' :: lead <:+: s := by
  rw [Text.clean_iff]
  constructor
  · rintro hclean lead hlead ⟨c, hc, x, y, rfl⟩ ⟨p, q, rfl⟩
    have hblank := List.all_eq_true.mp (hleads _ hlead) c (by simp)
    exact hclean (p ++ '\n' :: x) c ('\n' :: (y ++ q)) (by simp) ⟨hblank, hc, by simp⟩
  · rintro hragged a c b rfl hloose
    obtain ⟨x, y, hlead, ⟨p, rfl⟩, ⟨q, rfl⟩⟩ := h a c b rfl hloose
    refine hragged _ hlead ⟨c, hloose.2.1, x, y, by simp⟩ ⟨p, q, by simp⟩

end CleanBut

section Inked

structure Inked (t : Text) : Prop where
  newline : '\n' ∉ t
  last : ∃ c, t.getLast? = some c ∧ Character.isBlank c = false

variable {leads : List Text} {s t u lead : Text}

theorem Inked.ne_nil (h : Inked t) : t ≠ [] := by
  obtain ⟨c, hc, -⟩ := h.last
  rintro rfl
  cases hc

private theorem Inked.head?_ne (h : Inked t) : t.head? ≠ some '\n' :=
  fun hc => h.newline (List.mem_of_mem_head? hc)

theorem Inked.isBlank (h : Inked t) : Text.isBlank t = false := by
  obtain ⟨c, hc, hsolid⟩ := h.last
  rw [Bool.eq_false_iff]
  intro hblank
  have hc := List.all_eq_true.mp hblank c (List.mem_of_getLast? hc)
  rw [hsolid] at hc
  cases hc

theorem Inked.prepend (h : Inked t) (hu : '\n' ∉ u) : Inked (u ++ t) where
  newline := by simp [hu, h.newline]
  last := by rw [List.getLast?_append_of_ne_nil _ h.ne_nil]; exact h.last

theorem inked_of_solid (hne : s ≠ []) (hs : Solid s) : Inked s where
  newline := fun h => absurd (hs _ h) (by decide)
  last := by
    obtain ⟨u, c, rfl⟩ := (List.eq_nil_or_concat' s).resolve_left hne
    exact ⟨c, List.getLast?_concat, hs c (by simp)⟩

theorem Trimmed.inked (h : Trimmed t) (hnewline : '\n' ∉ t) : Inked t where
  newline := hnewline
  last := by
    obtain ⟨u, c, rfl⟩ := (List.eq_nil_or_concat' t).resolve_left h.ne_nil
    exact ⟨c, List.getLast?_concat, h.last c List.getLast?_concat⟩

theorem Tight.inked (h : Tight t) : Inked t :=
  Trimmed.inked ⟨h.ne_nil, h.head, h.last⟩ fun hmem => absurd (h.blanks _ hmem (by decide)) (by decide)

theorem inked_trimEnd (hnewline : '\n' ∉ s) (hs : isBlank s = false) : Inked (trimEnd s) where
  newline hmem := hnewline ((dropEndWhile_isPrefix _ s).subset hmem)
  last := by
    have hne : trimEnd s ≠ [] := by
      intro hnil
      rw [← isBlank_trimEnd, hnil] at hs
      cases hs
    obtain ⟨u, c, hc⟩ := (List.eq_nil_or_concat' (trimEnd s)).resolve_left hne
    have hlast : (trimEnd s).getLast? = some c := by rw [hc, List.getLast?_concat]
    exact ⟨c, hlast, getLast?_trimEnd hlast⟩

theorem Inked.trimStart (h : Inked t) : Inked (trimStart t) where
  newline hmem := h.newline ((List.dropWhile_suffix _).subset hmem)
  last := by
    obtain ⟨c, hc, hsolid⟩ := h.last
    rw [← leadingBlanks_append_trimStart t] at hc
    have hne : Text.trimStart t ≠ [] := by
      intro hnil
      rw [hnil, List.append_nil] at hc
      have hblank := List.all_eq_true.mp (isBlank_leadingBlanks t) c (List.mem_of_getLast? hc)
      rw [hsolid] at hblank
      cases hblank
    rw [List.getLast?_append_of_ne_nil _ hne] at hc
    exact ⟨c, hc, hsolid⟩

theorem exists_join_concat (sep : Text) (ls : List Text) (l : Text) :
    ∃ u, join sep (ls ++ [l]) = u ++ l := by
  induction ls with
  | nil => exact ⟨[], rfl⟩
  | cons k ls ih =>
    obtain ⟨u, hu⟩ := ih
    have hne : ls ++ [l] ≠ [] := by simp
    obtain ⟨m, ms, hms⟩ := List.exists_cons_of_ne_nil hne
    refine ⟨k ++ sep ++ u, ?_⟩
    rw [hms] at hu
    rw [List.cons_append, hms, join, hu, List.append_assoc (k ++ sep)]

theorem inked_unwrap (h : words s ≠ []) : Inked (unwrap s) where
  newline := by
    have hover : Over (· ≠ '\n') (unwrap s) := by
      refine over_join (by simp [Over]) fun w hw c hc heq => ?_
      have hsolid := (mem_words hw).2.1 c hc
      rw [heq] at hsolid
      exact absurd hsolid (by decide)
    exact fun hmem => hover _ hmem rfl
  last := by
    obtain ⟨ws, w, hws⟩ := (List.eq_nil_or_concat' (words s)).resolve_left h
    obtain ⟨hne, hsolid, -⟩ := mem_words (s := s) (w := w) (by rw [hws]; simp)
    obtain ⟨u, hu⟩ := exists_join_concat [' '] ws w
    rw [unwrap, hws, hu, List.getLast?_append_of_ne_nil _ hne]
    exact (inked_of_solid hne hsolid).last

theorem exists_lines_concat (h : ∃ c, s.getLast? = some c ∧ Character.isBlank c = false) :
    ∃ ls l, lines s = ls ++ [l] ∧ Inked l := by
  induction s using line_induction with
  | last b hb =>
    have hinked : Inked b := ⟨hb, h⟩
    exact ⟨[], b, lines_of_not_mem hinked.ne_nil hb, hinked⟩
  | line b t hb ih =>
    have hne : t ≠ [] := by
      rintro rfl
      obtain ⟨c, hc, hsolid⟩ := h
      rw [List.getLast?_concat, Option.some_inj] at hc
      rw [← hc] at hsolid
      exact absurd hsolid (by decide)
    rw [← List.singleton_append, ← List.append_assoc, List.getLast?_append_of_ne_nil _ hne] at h
    obtain ⟨ls, l, hlines, hl⟩ := ih h
    exact ⟨dropTerminator (b ++ ['\n']) :: ls, l, by rw [lines_append_newline_eq hb, hlines]; rfl, hl⟩

theorem exists_last_of_words {b : Text} (hb : Solid b) (hne : b ≠ [])
    (h : words (s ++ b) = words (t ++ b))
    (ht : ∃ c, t.getLast? = some c ∧ Character.isBlank c = false) :
    ∃ c, s.getLast? = some c ∧ Character.isBlank c = false := by
  obtain ⟨u, v, w, rfl, rfl, hw, -, hv⟩ := exists_last_run_of_words hb hne h
  have hwne : w ≠ [] := by
    rintro rfl
    obtain ⟨c, hc, hsolid⟩ := ht
    rw [List.append_nil] at hc
    rw [hv c hc] at hsolid
    cases hsolid
  rw [List.getLast?_append_of_ne_nil _ hwne]
  exact (inked_of_solid hwne hw).last

theorem Inked.cleanBut (h : Inked t) : CleanBut leads t := by
  rintro a c b rfl hloose
  cases b with
  | nil =>
    obtain ⟨d, hd, hsolid⟩ := h.last
    rw [List.getLast?_concat, Option.some_inj] at hd
    rw [← hd, hloose.1] at hsolid
    cases hsolid
  | cons d b =>
    obtain rfl := hloose.2.2 d rfl
    exact absurd (by simp) h.newline

theorem Inked.behind_lead (h : Inked t) (hlead : lead ∈ leads) :
    CleanBut leads ('\n' :: (lead ++ t)) :=
  h.cleanBut.behind_lead h.ne_nil h.head?_ne hlead

end Inked

end DocstringFormat.Text
