import DocstringFormat.Proofs.Text.Columns

/-!
Filling is first fit.

A layout of the words of a text in lines is first fit (`IsFirstFit`) when every line fits or is one
word, and none has room for the first word of the next line.  Packing gives such a layout
(`firstFit_packFrom`), and every such layout is what packing gives (`packFrom_eq`).  So the lines of a
filled text are those of the one first-fit layout, each after its indentation (`fill_is_first_fit`).
-/

set_option autoImplicit false

namespace DocstringFormat.Text

section Layouts

/-- The indentation of the line with a number. -/
def indentAt (initial subsequent : Text) (i : Nat) : Text :=
  if i = 0 then initial else subsequent

/-- Every line fits after its indentation, or it is one word. -/
def LinesFit (columns : Nat) (initial subsequent : Text) (ls : List (List SpacedWord)) : Prop :=
  ∀ i l, ls[i]? = some l →
    l.length = 1 ∨ width (indentAt initial subsequent i) + lineWidth l ≤ columns

/-- No line has room for the first word of the next one and the spaces before that word. -/
def LinesFull (columns : Nat) (initial subsequent : Text) (ls : List (List SpacedWord)) : Prop :=
  ∀ i l w m, ls[i]? = some l → ls[i + 1]? = some (w :: m) →
    columns < width (indentAt initial subsequent i) + usedWidth l + width w.body

variable {columns : Nat} {initial subsequent : Text} {l : List SpacedWord}
  {ls : List (List SpacedWord)}

private theorem linesFit_cons :
    LinesFit columns initial subsequent (l :: ls) ↔
      (l.length = 1 ∨ width initial + lineWidth l ≤ columns) ∧
        LinesFit columns subsequent subsequent ls := by
  constructor
  · intro h
    refine ⟨h 0 l rfl, ?_⟩
    intro i m hm
    have hlater := h (i + 1) m hm
    simpa [indentAt] using hlater
  · rintro ⟨hfirst, hrest⟩ i m hm
    cases i with
    | zero =>
      obtain rfl : l = m := by simpa using hm
      exact hfirst
    | succ i =>
      have hlater := hrest i m hm
      simpa [indentAt] using hlater

private theorem linesFull_cons :
    LinesFull columns initial subsequent (l :: ls) ↔
      (∀ w m, ls.head? = some (w :: m) → columns < width initial + usedWidth l + width w.body) ∧
        LinesFull columns subsequent subsequent ls := by
  constructor
  · intro h
    refine ⟨?_, ?_⟩
    · intro w m hw
      exact h 0 l w m rfl (by simpa [List.head?_eq_getElem?] using hw)
    · intro i k w m hk hw
      have hlater := h (i + 1) k w m hk hw
      simpa [indentAt] using hlater
  · rintro ⟨hfirst, hrest⟩ i k w m hk hw
    cases i with
    | zero =>
      obtain rfl : l = k := by simpa using hk
      exact hfirst w m (by simpa [List.head?_eq_getElem?] using hw)
    | succ i =>
      have hlater := hrest i k w m hk hw
      simpa [indentAt] using hlater

/-- The words of a text in lines, first fit. -/
structure IsFirstFit (s : Text) (columns : Nat) (initial subsequent : Text)
    (ls : List (List SpacedWord)) : Prop where
  words : ls.flatten.map SpacedWord.body = Text.words s
  text : unspace ls.flatten = flatten s
  ne_nil : ∀ l ∈ ls, l ≠ []
  fits : LinesFit (max columns 1) initial subsequent ls
  full : LinesFull (max columns 1) initial subsequent ls

end Layouts

section Packing

variable {columns : Nat} {initial subsequent : Text} {line ws : List SpacedWord} {used : Nat}

private theorem usedWidth_pos {l : List SpacedWord} {w : SpacedWord}
    (hspaced : Spaced (l ++ w :: ws))
    (hne : l ≠ []) : 0 < usedWidth l := by
  cases l with
  | nil => exact absurd rfl hne
  | cons v l =>
    have hgap : 0 < v.gap := by
      cases l with
      | nil => exact (List.isChain_cons_cons.mp hspaced).1
      | cons u l => exact (List.isChain_cons_cons.mp hspaced).1
    rw [usedWidth]
    omega

private theorem usedWidth_add_le_lineWidth (l m : List SpacedWord) (w : SpacedWord) :
    usedWidth l + width w.body ≤ lineWidth (l ++ w :: m) := by
  induction l with
  | nil =>
    cases m with
    | nil => simp [usedWidth, lineWidth]
    | cons v m =>
      simp only [List.nil_append, usedWidth, lineWidth]
      omega
  | cons v l ih =>
    have hne : l ++ w :: m ≠ [] := by simp
    obtain ⟨u, us, hus⟩ := List.exists_cons_of_ne_nil hne
    rw [List.cons_append, hus, usedWidth, lineWidth, ← hus]
    omega

private theorem firstFit_packFrom (hused : used = usedWidth line.reverse)
    (hspaced : Spaced (line.reverse ++ ws))
    (hline : line.length ≤ 1 ∨ width initial + lineWidth line.reverse ≤ columns)
    (hne : line ++ ws ≠ []) :
    ∃ first rest,
      packFrom (columns - width initial) (columns - width subsequent) line used ws =
          first :: rest ∧
        line.reverse <+: first ∧ (∀ l ∈ first :: rest, l ≠ []) ∧
        LinesFit columns initial subsequent (first :: rest) ∧
        LinesFull columns initial subsequent (first :: rest) := by
  induction ws generalizing initial line used with
  | nil =>
    have hbegun : line ≠ [] := by simpa using hne
    refine ⟨line.reverse, [], rfl, List.prefix_rfl, by simpa using hbegun, ?_, ?_⟩
    · refine linesFit_cons.mpr ⟨?_, by simp [LinesFit]⟩
      have hpos := List.length_pos_of_ne_nil hbegun
      rw [List.length_reverse]
      omega
    · exact linesFull_cons.mpr ⟨by simp, by simp [LinesFull]⟩
  | cons w ws ih =>
    rw [packFrom]
    split
    · -- The word does not fit: it begins the next line.
      rename_i hfull
      obtain ⟨hbegun, hroom⟩ := hfull
      have hbegun : line ≠ [] := by
        rintro rfl
        cases hbegun
      have hrest : Spaced ([w].reverse ++ ws) := List.IsChain.right_of_append hspaced
      obtain ⟨first, rest, hpack, ⟨more, rfl⟩, hnonempty, hfits, hlinesFull⟩ :=
        @ih subsequent [w] (width w.body + w.gap) (by simp [usedWidth]) hrest (Or.inl (by simp))
          (by simp)
      refine ⟨line.reverse, ([w].reverse ++ more) :: rest, by rw [hpack], List.prefix_rfl, ?_, ?_, ?_⟩
      · intro l hl
        rcases List.mem_cons.mp hl with rfl | hl
        · simpa using hbegun
        · exact hnonempty l hl
      · refine linesFit_cons.mpr ⟨?_, hfits⟩
        have hpos := List.length_pos_of_ne_nil hbegun
        rw [List.length_reverse]
        omega
      · refine linesFull_cons.mpr ⟨?_, hlinesFull⟩
        intro v m hv
        obtain ⟨rfl, -⟩ : w = v ∧ more = m := by simpa using hv
        omega
    · rename_i hroom
      have hnext : Spaced ((w :: line).reverse ++ ws) := by simpa using hspaced
      have hfits : (w :: line).length ≤ 1 ∨
          width initial + lineWidth (w :: line).reverse ≤ columns := by
        rw [List.reverse_cons, lineWidth_concat, ← hused]
        cases line with
        | nil => exact Or.inl (by simp)
        | cons v line =>
          have hpos := usedWidth_pos hspaced (by simp)
          simp only [List.isEmpty_cons, true_and, not_lt] at hroom
          omega
      obtain ⟨first, rest, hpack, hbegun, hlines⟩ :=
        @ih initial (w :: line) (used + width w.body + w.gap)
          (by rw [List.reverse_cons, usedWidth_concat, hused]) hnext hfits (by simp)
      refine ⟨first, rest, hpack, ?_, hlines⟩
      rw [List.reverse_cons] at hbegun
      exact (List.prefix_append _ _).trans hbegun

private theorem packFrom_eq {first : List SpacedWord} {rest : List (List SpacedWord)}
    (hused : used = usedWidth line.reverse) (hspaced : Spaced (line.reverse ++ ws))
    (hcut : (first :: rest).flatten = line.reverse ++ ws) (hbegun : line.reverse <+: first)
    (hne : ∀ l ∈ first :: rest, l ≠ [])
    (hfits : LinesFit columns initial subsequent (first :: rest))
    (hfull : LinesFull columns initial subsequent (first :: rest)) :
    packFrom (columns - width initial) (columns - width subsequent) line used ws =
      first :: rest := by
  induction ws generalizing initial line used first rest with
  | nil =>
    obtain ⟨more, rfl⟩ := hbegun
    rw [List.flatten_cons, List.append_assoc, List.append_cancel_left_eq,
      List.append_eq_nil_iff] at hcut
    obtain ⟨rfl, hrest⟩ := hcut
    have hnil : rest = [] := by
      cases rest with
      | nil => rfl
      | cons l rest =>
        rw [List.flatten_cons, List.append_eq_nil_iff] at hrest
        exact absurd hrest.1 (hne l (by simp))
    rw [packFrom, hnil, List.append_nil]
  | cons w ws ih =>
    obtain ⟨hfirst, hlater⟩ := linesFit_cons.mp hfits
    obtain ⟨hroom, hlaterFull⟩ := linesFull_cons.mp hfull
    obtain ⟨more, rfl⟩ := hbegun
    rw [List.flatten_cons, List.append_assoc, List.append_cancel_left_eq] at hcut
    rw [packFrom]
    cases more with
    | nil =>
      -- The line ends here, so the word begins the next one and did not fit.
      rw [List.nil_append] at hcut
      rw [List.append_nil] at *
      have hline : line ≠ [] := by simpa using hne line.reverse (by simp)
      have hmore : rest ≠ [] := by
        rintro rfl
        cases hcut
      obtain ⟨l, ls, rfl⟩ := List.exists_cons_of_ne_nil hmore
      obtain ⟨v, m, rfl⟩ := List.exists_cons_of_ne_nil (hne l (by simp))
      obtain ⟨rfl, hws⟩ := List.cons.inj hcut
      have hover := hroom v m rfl
      have hpos := usedWidth_pos hspaced (by simpa using hline)
      have hmust : line.isEmpty = false ∧ columns - width initial < used + width v.body := by
        refine ⟨by simpa using hline, ?_⟩
        omega
      have hrest : Spaced ([v].reverse ++ ws) := List.IsChain.right_of_append hspaced
      have hbegins : ((v :: m) :: ls).flatten = [v].reverse ++ ws := by
        rw [← hws]
        rfl
      rw [if_pos hmust, @ih subsequent [v] _ _ _ (by simp [usedWidth]) hrest hbegins ⟨m, rfl⟩
        (fun k hk => hne k (List.mem_cons_of_mem _ hk)) hlater hlaterFull]
    | cons v more =>
      -- The line goes on with the word, so it fits.
      obtain ⟨rfl, hws⟩ := List.cons.inj hcut
      have hmay : ¬ (line.isEmpty = false ∧ columns - width initial < used + width v.body) := by
        rintro ⟨hbegun, hover⟩
        have hle := usedWidth_add_le_lineWidth line.reverse more v
        have hlong : (line.reverse ++ v :: more).length ≠ 1 := by
          cases line with
          | nil => cases hbegun
          | cons u line =>
            simp only [List.length_append, List.length_reverse, List.length_cons]
            omega
        have hwidth := hfirst.resolve_left hlong
        omega
      have hsplit : line.reverse ++ v :: more = (v :: line).reverse ++ more := by simp
      have hgoes : ((line.reverse ++ v :: more) :: rest).flatten = (v :: line).reverse ++ ws := by
        rw [List.flatten_cons, hsplit, List.append_assoc, ← hws]
        rfl
      rw [if_neg hmay, ih (by rw [List.reverse_cons, usedWidth_concat, hused])
        (by simpa using hspaced) hgoes ⟨more, hsplit.symm⟩ hne hfits hfull]

end Packing

section Filling

variable {s : Text} {columns : Nat} {initial subsequent : Text}

private theorem takeWhile_unspace {ws : List SpacedWord} (h : Sound ws) (n : Nat) :
    (List.replicate n ' ' ++ unspace ws).takeWhile (· == ' ') = List.replicate n ' ' := by
  have hsolid : (unspace ws).takeWhile (· == ' ') = [] := by
    cases ws with
    | nil => rfl
    | cons w ws =>
      obtain ⟨hne, hw⟩ := h w (by simp)
      obtain ⟨c, r, hcons⟩ := List.exists_cons_of_ne_nil hne
      have hc : c ≠ ' ' := by
        rintro rfl
        have hblank := hw ' ' (by rw [hcons]; simp)
        exact absurd hblank (by decide)
      simp [unspace, hcons, hc]
  rw [List.takeWhile_append_of_pos (by simp), hsolid, List.append_nil]

private theorem eq_of_unspace {ws vs : List SpacedWord} (hws : Sound ws) (hvs : Sound vs)
    (hbodies : ws.map SpacedWord.body = vs.map SpacedWord.body) (h : unspace ws = unspace vs) :
    ws = vs := by
  induction ws generalizing vs with
  | nil =>
    have hnil : vs = [] := by simpa using hbodies.symm
    rw [hnil]
  | cons w ws ih =>
    cases vs with
    | nil => cases hbodies
    | cons v vs =>
      obtain ⟨hbody, hrest⟩ := List.cons.inj hbodies
      have hwsRest : Sound ws := fun u hu => hws u (List.mem_cons_of_mem w hu)
      have hvsRest : Sound vs := fun u hu => hvs u (List.mem_cons_of_mem v hu)
      have hspaces : List.replicate w.gap ' ' ++ unspace ws =
          List.replicate v.gap ' ' ++ unspace vs := by
        simp only [unspace, List.flatMap_cons, List.append_assoc, hbody] at h ⊢
        exact List.append_cancel_left h
      have hgap : w.gap = v.gap := by
        have hlengths := congrArg (fun t : Text => (t.takeWhile (· == ' ')).length) hspaces
        simpa only [takeWhile_unspace hwsRest, takeWhile_unspace hvsRest, List.length_replicate]
          using hlengths
      rw [hgap, List.append_cancel_left_eq] at hspaces
      obtain ⟨body, gap⟩ := w
      obtain ⟨body', gap'⟩ := v
      rw [ih hwsRest hvsRest hrest hspaces]
      simp_all

private theorem map_body_spacedWords (s : Text) :
    (spacedWords (flatten s)).map SpacedWord.body = words s := by
  have hbodies := words_lineText_eq (sound_spacedWords s) (spaced_spacedWords (flatten s))
  rw [← hbodies, words_lineText, unspace_spacedWords, words_flatten]

theorem flatten_eq_nil_iff : flatten s = [] ↔ isBlank s = true := by
  constructor
  · intro h
    rw [isBlank, List.all_eq_true]
    intro c hc
    by_contra hsolid
    have hwords : words s = [] := by rw [← words_flatten, h]; rfl
    have hsqueeze : squeeze s = [] := by rw [← flatten_words, hwords]; rfl
    have hmem : c ∈ squeeze s := by
      rw [squeeze, List.mem_filter]
      exact ⟨hc, by simpa using hsolid⟩
    rw [hsqueeze] at hmem
    cases hmem
  · intro h
    by_contra hne
    have hwords : words (flatten s) = [] := by rw [words_flatten, words_of_blank h]
    obtain ⟨c, r, hcons⟩ := List.exists_cons_of_ne_nil hne
    have hsolid : Character.isBlank c = false := head?_trim (by rw [← flatten, hcons]; rfl)
    obtain ⟨w, ws, hw⟩ := words_cons_solid hsolid r
    rw [hcons, hw] at hwords
    cases hwords

private theorem IsFirstFit.flatten_eq {ls : List (List SpacedWord)}
    (h : IsFirstFit s columns initial subsequent ls) :
    ls.flatten = spacedWords (Text.flatten s) := by
  have hbodies : ls.flatten.map SpacedWord.body =
      (spacedWords (Text.flatten s)).map SpacedWord.body := by
    rw [h.words, map_body_spacedWords]
  refine eq_of_unspace ?_ (sound_spacedWords s) hbodies (by rw [h.text, unspace_spacedWords])
  intro w hw
  have hmem := List.mem_map_of_mem (f := SpacedWord.body) hw
  rw [h.words] at hmem
  obtain ⟨hne, hsolid, -⟩ := mem_words hmem
  exact ⟨hne, hsolid⟩

section Unique

variable {ls ms : List (List SpacedWord)}

private theorem IsFirstFit.sound (h : IsFirstFit s columns initial subsequent ls)
    {l : List SpacedWord}
    (hl : l ∈ ls) : Sound l := by
  intro w hw
  apply sound_spacedWords s
  rw [← h.flatten_eq]
  exact List.mem_flatten_of_mem hl hw

theorem IsFirstFit.spaced (h : IsFirstFit s columns initial subsequent ls) {l : List SpacedWord}
    (hl : l ∈ ls) : Spaced l := by
  have hspaced := spaced_spacedWords (Text.flatten s)
  obtain ⟨before, after, rfl⟩ := List.append_of_mem hl
  rw [← h.flatten_eq, List.flatten_append, List.flatten_cons] at hspaced
  exact (List.IsChain.right_of_append hspaced).left_of_append

private theorem IsFirstFit.eq_nil_iff (h : IsFirstFit s columns initial subsequent ls) :
    ls = [] ↔ isBlank s = true := by
  rw [← flatten_eq_nil_iff]
  constructor
  · rintro rfl
    exact h.text.symm
  · intro hflat
    have hnil := h.flatten_eq
    rw [hflat] at hnil
    cases ls with
    | nil => rfl
    | cons l ls =>
      rw [List.flatten_cons] at hnil
      exact absurd (List.append_eq_nil_iff.mp hnil).1 (h.ne_nil l (by simp))

private theorem IsFirstFit.packFrom_eq {first : List SpacedWord} {rest : List (List SpacedWord)}
    (h : IsFirstFit s columns initial subsequent (first :: rest)) :
    packFrom (max columns 1 - width initial) (max columns 1 - width subsequent) [] 0
      (spacedWords (Text.flatten s)) = first :: rest :=
  Text.packFrom_eq rfl (by simpa using spaced_spacedWords (Text.flatten s))
    (by simpa using h.flatten_eq) List.nil_prefix h.ne_nil h.fits h.full

theorem IsFirstFit.unique (hls : IsFirstFit s columns initial subsequent ls)
    (hms : IsFirstFit s columns initial subsequent ms) : ms = ls := by
  cases ls with
  | nil => exact hms.eq_nil_iff.mpr (hls.eq_nil_iff.mp rfl)
  | cons l ls =>
    cases ms with
    | nil => exact (hls.eq_nil_iff.mpr (hms.eq_nil_iff.mp rfl)).symm
    | cons m ms => rw [← hms.packFrom_eq, hls.packFrom_eq]

end Unique

private theorem mapIdx_indentAt (l : List SpacedWord) (ls : List (List SpacedWord)) :
    (l :: ls).mapIdx (fun i line => indentAt initial subsequent i ++ lineText line) =
      (initial ++ lineText l) :: ls.map fun line => subsequent ++ lineText line := by
  rw [List.mapIdx_cons]
  congr 1
  exact List.ext_getElem (by simp) fun i _ _ => by simp [indentAt]

private theorem exists_isFirstFit (s : Text) (columns : Nat) (initial subsequent : Text) :
    ∃ ls, IsFirstFit s columns initial subsequent ls ∧
      fill s columns initial subsequent =
        ls.mapIdx (fun i l => indentAt initial subsequent i ++ lineText l) := by
  by_cases hflat : flatten s = []
  · refine ⟨[], ⟨?_, ?_, by simp, by simp [LinesFit], by simp [LinesFull]⟩, by simp [fill, hflat]⟩
    · rw [words_of_blank (flatten_eq_nil_iff.mp hflat)]
      rfl
    · rw [hflat]
      rfl
  · have hne : [] ++ spacedWords (flatten s) ≠ [] := by
      intro h
      have hnil := unspace_spacedWords (flatten s)
      rw [← List.nil_append (spacedWords _), h] at hnil
      exact hflat hnil.symm
    obtain ⟨first, rest, hpack, -, hnonempty, hfits, hfull⟩ :=
      @firstFit_packFrom (max columns 1) initial subsequent [] _ 0 rfl
        (by simpa using spaced_spacedWords (flatten s)) (Or.inl (by simp)) hne
    have hcut : (first :: rest).flatten = spacedWords (flatten s) := by
      rw [← hpack, flatten_packFrom]
      rfl
    refine ⟨first :: rest, ⟨?_, ?_, hnonempty, hfits, hfull⟩, ?_⟩
    · rw [hcut, map_body_spacedWords]
    · rw [hcut, unspace_spacedWords]
    · have hempty : (flatten s).isEmpty = false := by simpa using hflat
      rw [mapIdx_indentAt]
      simp only [fill, hempty, Bool.false_eq_true, if_false, pack, hpack]

theorem exists_fill_eq (s : Text) (columns : Nat) (initial subsequent : Text) :
    fill s columns initial subsequent = [] ∨
      ∃ (t : Text) (ts : List Text),
        fill s columns initial subsequent = (initial ++ t) :: ts.map (subsequent ++ ·) ∧
        Tight t ∧ ∀ u ∈ ts, Tight u := by
  obtain ⟨ls, hfit, hfill⟩ := exists_isFirstFit s columns initial subsequent
  have htight : ∀ l ∈ ls, Tight (lineText l) :=
    fun l hl => tight_lineText (hfit.ne_nil l hl) (hfit.sound hl)
  cases ls with
  | nil => exact Or.inl hfill
  | cons l ls =>
    refine Or.inr ⟨lineText l, ls.map lineText, ?_, htight l (by simp), ?_⟩
    · rw [hfill, mapIdx_indentAt, List.map_map]
      rfl
    · intro u hu
      obtain ⟨k, hk, rfl⟩ := List.mem_map.mp hu
      exact htight k (List.mem_cons_of_mem l hk)

theorem exists_tight_of_mem_fill {line : Text} (h : line ∈ fill s columns initial subsequent) :
    ∃ lead t, line = lead ++ t ∧ (lead = initial ∨ lead = subsequent) ∧ Tight t := by
  rcases exists_fill_eq s columns initial subsequent with hnil | ⟨t, ts, heq, ht, hts⟩
  · rw [hnil] at h
    cases h
  · rw [heq] at h
    rcases List.mem_cons.mp h with rfl | h
    · exact ⟨initial, t, rfl, Or.inl rfl, ht⟩
    · obtain ⟨u, hu, rfl⟩ := List.mem_map.mp h
      exact ⟨subsequent, u, rfl, Or.inr rfl, hts u hu⟩

/-- Filling lays the words of a text out first fit, in the one way there is.  Each line has its words
and the spaces between them after its indentation, and does not end in a blank; a blank text has no
lines. -/
theorem fill_is_first_fit (s : Text) (columns : Nat) (initial subsequent : Text) :
    ∃ ls : List (List SpacedWord),
      IsFirstFit s columns initial subsequent ls ∧
      (∀ ms, IsFirstFit s columns initial subsequent ms → ms = ls) ∧
      fill s columns initial subsequent =
        ls.mapIdx (fun i l => indentAt initial subsequent i ++ lineText l) ∧
      (∀ l ∈ ls, words (lineText l) = l.map SpacedWord.body) ∧
      (∀ line ∈ fill s columns initial subsequent, ∀ c, line.getLast? = some c →
        Character.isBlank c = false) ∧
      (fill s columns initial subsequent = [] ↔ isBlank s = true) := by
  obtain ⟨ls, hfit, hfill⟩ := exists_isFirstFit s columns initial subsequent
  refine ⟨ls, hfit, fun ms hms => hfit.unique hms, hfill, ?_, ?_, ?_⟩
  · intro l hl
    exact words_lineText_eq (hfit.sound hl) (hfit.spaced hl)
  · intro line hline c hc
    obtain ⟨lead, t, rfl, -, ht⟩ := exists_tight_of_mem_fill hline
    rw [List.getLast?_append_of_ne_nil _ ht.ne_nil] at hc
    exact ht.last c hc
  · rw [hfill, List.mapIdx_eq_nil_iff]
    exact hfit.eq_nil_iff

end Filling

end DocstringFormat.Text
