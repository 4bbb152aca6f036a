import DocstringFormat.Proofs.Docstring.Layout

/-!
Which words the layout of links keeps.

A link on a line of its own is parted from all that stands in front of it, but for a double quote
that ends the line above.  So the words of a text survive exactly if every such link starts a word,
or starts one with the quote that comes with it (`LinkProgress.Faithful`).  Each link decides this
for itself (`LinkProgress.flatMap_words_step_iff`), and a cut that one makes is not mended by a
later one (`flatMap_words_foldl_iff`).
-/

set_option autoImplicit false

namespace DocstringFormat.Docstring

open Text (words)
open Markup (Link Style)

/-- Whether a word can start right after a text: it is empty or ends in a blank. -/
def Ended (s : Text) : Prop :=
  ∀ c, s.getLast? = some c → Character.isBlank c = true

section Ends

theorem Ended.of_append {a b : Text} (h : Ended (a ++ b)) : Ended b := by
  intro c hc
  exact h c (by rw [List.getLast?_append, hc, Option.some_or])

private theorem words_append_link {u run link h : Text} {hs : List Text} (hu : Ended u)
    (hrun : Text.Solid run) (hlink : ∀ c, link.head? = some c → Character.isBlank c = false)
    (hwords : words link = h :: hs) :
    words (u ++ run ++ link) = words u ++ (run ++ h) :: hs := by
  rw [List.append_assoc, Text.words_append_of_ended hu, Text.words_solid_append hrun hlink hwords]

private theorem ended_iff_of_run {u run : Text} (hu : Ended u) (hrun : Text.Solid run) :
    Ended (u ++ run) ↔ run = [] := by
  constructor
  · intro h
    rcases List.eq_nil_or_concat' run with rfl | ⟨init, c, rfl⟩
    · rfl
    · have hblank := h c (by rw [← List.append_assoc, List.getLast?_concat])
      rw [hrun c (by simp)] at hblank
      cases hblank
  · rintro rfl
    rwa [List.append_nil]

private theorem quote_iff_of_run {u run : Text} (hu : Ended u) (hrun : Text.Solid run) :
    (∃ v, u ++ run = v ++ ['"'] ∧ Ended v) ↔ run = ['"'] := by
  constructor
  · rintro ⟨v, hv, hended⟩
    rcases List.eq_nil_or_concat' run with rfl | ⟨init, c, rfl⟩
    · rw [List.append_nil] at hv
      have hblank := hu '"' (by rw [hv, List.getLast?_concat])
      exact absurd hblank (by decide)
    · rw [← List.append_assoc] at hv
      obtain ⟨rfl, hc⟩ := List.append_inj' hv rfl
      have hinit := (ended_iff_of_run hu fun d hd => hrun d (by simp [hd])).mp hended
      rw [hinit, hc, List.nil_append]
  · rintro rfl
    exact ⟨u, rfl, hu⟩

end Ends

section Placing

variable {indent : Text} (hind : Text.isBlank indent = true)
include hind

private theorem words_quotedLine {link : Text}
    (hlink : ∀ c, link.head? = some c → Character.isBlank c = false) (hne : link ≠ []) :
    words (indent ++ ['"'] ++ Text.trimStart (linkLine indent link)) = words ('"' :: link) := by
  obtain ⟨c, r, rfl⟩ := List.exists_cons_of_ne_nil hne
  obtain ⟨w, ws, hw⟩ := Text.words_cons_solid (hlink c rfl) r
  have hline : words (Text.trimStart (linkLine indent (c :: r))) = (c :: w) :: ws := by
    rw [Text.words_trimStart, words_linkLine hind, hw]
  have hstart : ∀ d, (Text.trimStart (linkLine indent (c :: r))).head? = some d →
      Character.isBlank d = false := by
    intro d hd
    obtain ⟨t, ht⟩ := List.head?_eq_some_iff.mp hd
    exact Text.trimStart_eq_cons ht
  have hquote : Text.Solid ['"'] := by
    intro d hd
    rw [List.mem_singleton.mp hd]
    decide
  rw [List.append_assoc, Text.words_blank_append hind,
    Text.words_solid_append hquote hstart hline]
  exact (Text.words_solid_append hquote hlink hw).symm

private theorem flatMap_words_placeLink_of_quote {init : List Text} {stripped link : Text}
    (hlink : ∀ c, link.head? = some c → Character.isBlank c = false) (hne : link ≠ []) :
    (placeLink indent link (init ++ [stripped ++ ['"']])).flatMap words =
      init.flatMap words ++ words stripped ++ words ('"' :: link) := by
  have hbefore : Text.before? ['"'] (stripped ++ ['"']) = some stripped :=
    Text.before?_eq_some.mpr rfl
  have hquoted := words_quotedLine hind hlink hne
  simp only [placeLink, List.getLast?_concat, Option.bind_some, hbefore, List.dropLast_concat]
  split
  · rename_i hblank
    rw [List.flatMap_append, List.flatMap_singleton, hquoted, Text.words_of_blank hblank,
      List.append_nil]
  · rw [List.flatMap_append, List.flatMap_cons, List.flatMap_singleton, hquoted,
      Text.words_trimEnd, List.append_assoc]

private theorem flatMap_words_placeLink_of_none {ls : List Text} {link : Text}
    (hnone : ls.getLast?.bind (Text.before? ['"']) = none) :
    (placeLink indent link ls).flatMap words = ls.flatMap words ++ words link := by
  simp only [placeLink, hnone, List.flatMap_append, List.flatMap_singleton, words_linkLine hind]

private theorem flatMap_words_placeLink_iff_ended {ls : List Text} {before link : Text}
    (hlink : ∀ c, link.head? = some c → Character.isBlank c = false) (hne : link ≠ [])
    (hnone : ls.getLast?.bind (Text.before? ['"']) = none) :
    (placeLink indent link ls).flatMap words = words (before ++ link) ↔
      Ended before ∧ ls.flatMap words = words before := by
  obtain ⟨c, r, rfl⟩ := List.exists_cons_of_ne_nil hne
  obtain ⟨w, ws, hw⟩ := Text.words_cons_solid (hlink c rfl) r
  obtain ⟨u, run, rfl, hrun, hu⟩ := Text.exists_last_run before
  rw [flatMap_words_placeLink_of_none hind hnone, words_append_link hu hrun hlink hw, hw,
    ended_iff_of_run hu hrun]
  constructor
  · intro heq
    obtain ⟨hlines, hlast⟩ := List.append_inj' heq (by simp)
    have hnil : run = [] := by
      have hhead := (List.cons.inj hlast).1
      exact List.append_left_eq_self.mp hhead.symm
    refine ⟨hnil, ?_⟩
    rw [hlines, hnil, List.append_nil]
  · rintro ⟨rfl, hlines⟩
    rw [hlines, List.append_nil, List.nil_append]

private theorem flatMap_words_placeLink_iff_quote {init : List Text} {stripped before link : Text}
    (hlink : ∀ c, link.head? = some c → Character.isBlank c = false) (hne : link ≠ []) :
    (placeLink indent link (init ++ [stripped ++ ['"']])).flatMap words = words (before ++ link) ↔
      ∃ u, before = u ++ ['"'] ∧ Ended u ∧ init.flatMap words ++ words stripped = words u := by
  obtain ⟨c, r, rfl⟩ := List.exists_cons_of_ne_nil hne
  obtain ⟨w, ws, hw⟩ := Text.words_cons_solid (hlink c rfl) r
  obtain ⟨u, run, rfl, hrun, hu⟩ := Text.exists_last_run before
  have hquote : Text.Solid ['"'] := by
    intro d hd
    rw [List.mem_singleton.mp hd]
    decide
  have hword : words ('"' :: c :: r) = ('"' :: c :: w) :: ws :=
    Text.words_solid_append hquote hlink hw
  rw [flatMap_words_placeLink_of_quote hind hlink hne, words_append_link hu hrun hlink hw, hword]
  constructor
  · intro heq
    obtain ⟨hlines, hlast⟩ := List.append_inj' heq (by simp)
    have hrunQuote : run = ['"'] := by
      have hhead : ['"'] ++ c :: w = run ++ c :: w := (List.cons.inj hlast).1
      exact (List.append_cancel_right hhead).symm
    exact ⟨u, by rw [hrunQuote], hu, hlines⟩
  · rintro ⟨v, hv, hended, hlines⟩
    obtain rfl := (quote_iff_of_run hu hrun).mp ⟨v, hv, hended⟩
    obtain rfl := List.append_cancel_right hv
    rw [hlines]
    rfl

end Placing

/-- Whether the lines above a link end in a double quote, which then moves to the line of the
link. -/
def LinkProgress.takesQuote (s indent : Text) (columns : Nat) (done : LinkProgress) (link : Link) :
    Bool :=
  ((done.linesAbove s indent columns link).getLast?.bind (Text.before? ['"'])).isSome

/-- A link on a line of its own starts a word of the text, or stands behind a quote that starts one
and comes with it. -/
def LinkProgress.Faithful (s indent : Text) (columns : Nat) (done : LinkProgress) (link : Link) :
    Prop :=
  if done.takesQuote s indent columns link then
    ∃ u, s.takeBytes link.span.start = u ++ ['"'] ∧ Ended u
  else Ended (s.takeBytes link.span.start)

/-- The links that get lines of their own, each with what is laid out before it. -/
def placements (s indent : Text) (columns : Nat) : LinkProgress → List Link →
    List (LinkProgress × Link)
  | _, [] => []
  | done, link :: links =>
    if done.setsApart s indent columns link then
      (done, link) :: placements s indent columns (done.step s indent columns link) links
    else placements s indent columns done links

def Apart (pre post : Text) : Prop :=
  pre = [] ∨ ∀ c, post.head? = some c → Character.isBlank c = true

private theorem Apart.words_append {pre x y : Text} (h : Apart pre (x ++ y)) :
    words (pre ++ x) = words pre ++ words x := by
  rcases h with rfl | hblank
  · rfl
  · cases x with
    | nil => simp
    | cons c x =>
      have hc := hblank c rfl
      rw [Text.words_append_blank pre hc, Text.words_cons_blank hc]

private theorem words_append_quote {u : Text} (hu : Ended u) :
    words (u ++ ['"']) = words u ++ [['"']] := by
  rw [Text.words_append_of_ended hu]
  rfl

private theorem flatMap_words_stripped_iff {init : List Text} {stripped pre x : Text}
    {ws : List Text}
    (hx : Ended x) (hwords : words (pre ++ x) = words pre ++ words x)
    (hlines : (init ++ [stripped ++ ['"']]).flatMap words = ws ++ words (x ++ ['"'])) :
    init.flatMap words ++ words stripped = words (pre ++ x) ↔ ws = words pre := by
  obtain ⟨u, run, rfl, hrun, hu⟩ := Text.exists_last_run stripped
  have hquote : Text.Solid ['"'] := by
    intro d hd
    rw [List.mem_singleton.mp hd]
    decide
  rw [List.flatMap_append, List.flatMap_singleton, Text.words_append_run hu hrun hquote (by simp),
    words_append_quote hx, ← List.append_assoc, ← List.append_assoc] at hlines
  obtain ⟨hrest, hlast⟩ := List.append_inj' hlines rfl
  have hnil : run = [] := by
    have hone : run ++ ['"'] = [] ++ ['"'] := (List.cons.inj hlast).1
    exact List.append_cancel_right hone
  rw [hnil, List.append_nil, hrest, hwords, List.append_left_inj]

private theorem exists_of_quote_before {pre mid link rest u : Text}
    (hpost : Apart pre (mid ++ (link ++ rest)))
    (hlink : ∀ c, link.head? = some c → Character.isBlank c = false) (hne : link ≠ [])
    (h : pre ++ mid = u ++ ['"']) : ∃ x, mid = x ++ ['"'] ∧ u = pre ++ x := by
  rcases List.eq_nil_or_concat' mid with rfl | ⟨x, c, rfl⟩
  · obtain ⟨d, r, rfl⟩ := List.exists_cons_of_ne_nil hne
    rcases hpost with rfl | hblank
    · simp at h
    · have hd := hblank d rfl
      rw [hlink d rfl] at hd
      cases hd
  · rw [← List.append_assoc] at h
    obtain ⟨hu, hc⟩ := List.append_inj' h rfl
    exact ⟨x, by rw [hc], hu.symm⟩

section Steps

variable {indent : Text} (hind : Text.isBlank indent = true) {columns : Nat} {s pre post : Text}
  {done : LinkProgress} {link : Link}
include hind

private theorem flatMap_words_linesAbove {mid : Text}
    (hmid : s.extract done.offset link.span.start = mid) :
    (done.linesAbove s indent columns link).flatMap words =
      done.lines.flatMap words ++ words mid := by
  have hfilled := flatMap_words_fillParagraphs hind columns mid
  simp only [LinkProgress.linesAbove, hmid]
  split
  · rw [List.flatMap_append, hfilled]
  · rw [flatMap_words_dropLastEmpty, List.flatMap_append, hfilled]

private theorem LinkProgress.flatMap_words_step_iff (hs : s = pre ++ post)
    (hoffset : done.offset = pre.size) (hpost : Apart pre post) (hlink : link ∈ Markup.links s)
    (hset : done.setsApart s indent columns link = true) :
    ∃ pre' post', s = pre' ++ post' ∧ (done.step s indent columns link).offset = pre'.size ∧
      Apart pre' post' ∧
      ((done.step s indent columns link).lines.flatMap words = words pre' ↔
        done.lines.flatMap words = words pre ∧ done.Faithful s indent columns link) := by
  obtain ⟨mid, hit, b, hcut, hafter, hne, hmid, hbefore, hof, hstop⟩ :=
    exists_parts_of_setsApart hs hoffset hlink hset
  have hstart : ∀ c, hit.head? = some c → Character.isBlank c = false := by
    intro c hc
    obtain ⟨r, rfl⟩ := List.head?_eq_some_iff.mp hc
    exact Markup.link_start_solid hafter
  obtain rfl : post = mid ++ (hit ++ b) := List.append_cancel_left (hs.symm.trans hcut)
  have habove : (done.linesAbove s indent columns link).flatMap words =
      done.lines.flatMap words ++ words mid := flatMap_words_linesAbove hind hmid
  refine ⟨pre ++ mid ++ hit, b, by rw [hcut]; simp, ?_, ?_, ?_⟩
  · rw [LinkProgress.step_eq, if_pos hset, hstop]
  · exact Or.inr (Markup.endsAtBlank_of_afterLink? hafter).2
  · rw [LinkProgress.step_eq, if_pos hset, hof, LinkProgress.Faithful, hbefore]
    cases hquote : (done.linesAbove s indent columns link).getLast?.bind (Text.before? ['"']) with
    | none =>
      have htakes : done.takesQuote s indent columns link = false := by
        rw [LinkProgress.takesQuote, hquote, Option.isSome_none]
      rw [flatMap_words_placeLink_iff_ended hind hstart hne hquote, habove, hpost.words_append,
        List.append_left_inj, htakes, if_neg Bool.false_ne_true, and_comm]
    | some stripped =>
      have htakes : done.takesQuote s indent columns link = true := by
        rw [LinkProgress.takesQuote, hquote, Option.isSome_some]
      obtain ⟨last, hlast, hstripped⟩ := Option.bind_eq_some_iff.mp hquote
      rw [Text.before?_eq_some] at hstripped
      have hlines : done.linesAbove s indent columns link =
          (done.linesAbove s indent columns link).dropLast ++ [stripped ++ ['"']] := by
        rw [← hstripped]
        exact (List.dropLast_append_getLast? _ hlast).symm
      rw [hlines] at habove
      rw [hlines, flatMap_words_placeLink_iff_quote hind hstart hne, htakes, if_pos rfl]
      have hcancel : ∀ u, pre ++ mid = u ++ ['"'] → Ended u →
          ((done.linesAbove s indent columns link).dropLast.flatMap words ++ words stripped =
            words u ↔ done.lines.flatMap words = words pre) := by
        intro u hu hended
        obtain ⟨x, rfl, rfl⟩ := exists_of_quote_before hpost hstart hne hu
        rw [List.append_assoc] at hpost
        exact flatMap_words_stripped_iff hended.of_append hpost.words_append habove
      constructor
      · rintro ⟨u, hu, hended, hwords⟩
        exact ⟨(hcancel u hu hended).mp hwords, u, hu, hended⟩
      · rintro ⟨hwords, u, hu, hended⟩
        exact ⟨u, hu, hended, (hcancel u hu hended).mpr hwords⟩

private theorem flatMap_words_foldl_iff {links : List Link}
    (hlinks : ∀ link ∈ links, link ∈ Markup.links s)
    (hs : s = pre ++ post) (hoffset : done.offset = pre.size) (hpost : Apart pre post) :
    ∃ pre' post', s = pre' ++ post' ∧
      (links.foldl (LinkProgress.step s indent columns) done).offset = pre'.size ∧
      Apart pre' post' ∧
      ((links.foldl (LinkProgress.step s indent columns) done).lines.flatMap words = words pre' ↔
        done.lines.flatMap words = words pre ∧
          ∀ p ∈ placements s indent columns done links, p.1.Faithful s indent columns p.2) := by
  induction links generalizing done pre post with
  | nil => exact ⟨pre, post, hs, hoffset, hpost, by simp [placements]⟩
  | cons link links ih =>
    have hrest : ∀ l ∈ links, l ∈ Markup.links s := fun l hl => hlinks l (List.mem_cons_of_mem _ hl)
    rw [List.foldl_cons, placements]
    split
    · rename_i hset
      obtain ⟨pre₁, post₁, hs₁, hoffset₁, hpost₁, hstep⟩ :=
        LinkProgress.flatMap_words_step_iff hind hs hoffset hpost (hlinks link (by simp)) hset
      obtain ⟨pre', post', hs', hoffset', hpost', hrun⟩ := ih hrest hs₁ hoffset₁ hpost₁
      refine ⟨pre', post', hs', hoffset', hpost', ?_⟩
      rw [hrun, hstep, List.forall_mem_cons, and_assoc]
    · rename_i hset
      have hsame : done.step s indent columns link = done := by
        rw [LinkProgress.step_eq, if_neg hset]
      rw [hsame]
      exact ih hrest hs hoffset hpost

end Steps

section Descriptions

variable {indent : Text} (hind : Text.isBlank indent = true) {s : Text} {columns : Nat}
include hind

private theorem of_mem_placements {links : List Link} {done : LinkProgress}
    (hlinks : ∀ link ∈ links, link ∈ Markup.links s) (hdone : done.Sound s)
    {p : LinkProgress × Link} (hp : p ∈ placements s indent columns done links) :
    p.1.Sound s ∧ p.2 ∈ links ∧ p.1.setsApart s indent columns p.2 = true := by
  induction links generalizing done with
  | nil => cases hp
  | cons link links ih =>
    have hrest : ∀ l ∈ links, l ∈ Markup.links s := fun l hl => hlinks l (List.mem_cons_of_mem _ hl)
    rw [placements] at hp
    split at hp
    · rename_i hset
      rcases List.mem_cons.mp hp with rfl | hp
      · exact ⟨hdone, by simp, hset⟩
      · have hnext : (done.step s indent columns link).Sound s :=
          LinkProgress.sound_step hind hdone (hlinks link (by simp))
        obtain ⟨hsound, hmem, hplaced⟩ := ih hrest hnext hp
        exact ⟨hsound, List.mem_cons_of_mem _ hmem, hplaced⟩
    · obtain ⟨hsound, hmem, hplaced⟩ := ih hrest hdone hp
      exact ⟨hsound, List.mem_cons_of_mem _ hmem, hplaced⟩

private theorem getLast?_squeeze_of_takesQuote {done : LinkProgress} {link : Link}
    (hdone : done.Sound s)
    (hlink : link ∈ Markup.links s) (hset : done.setsApart s indent columns link = true)
    (htakes : done.takesQuote s indent columns link = true) :
    (Text.squeeze (s.takeBytes link.span.start)).getLast? = some '"' := by
  obtain ⟨pre, post, hs, hoffset, hcarries⟩ := hdone
  obtain ⟨mid, -, -, -, -, -, hmid, hbefore, -, -⟩ :=
    exists_parts_of_setsApart hs hoffset hlink hset
  obtain ⟨stripped, hstripped⟩ := Option.isSome_iff_exists.mp htakes
  obtain ⟨last, hlast, hquote⟩ := Option.bind_eq_some_iff.mp hstripped
  rw [Text.before?_eq_some] at hquote
  have hlines := List.dropLast_append_getLast? _ hlast
  have hsqueeze : (done.linesAbove s indent columns link).flatMap Text.squeeze =
      Text.squeeze (pre ++ mid) := by
    rw [← Text.flatten_flatMap_words, flatMap_words_linesAbove hind hmid, List.flatten_append,
      Text.flatten_flatMap_words, Text.flatten_words, hcarries.squeeze, Text.squeeze_append]
  have hend : Text.squeeze last = Text.squeeze stripped ++ ['"'] := by
    rw [hquote, Text.squeeze_append]
    rfl
  rw [hbefore, ← hsqueeze, ← hlines, List.flatMap_append, List.flatMap_singleton, hend,
    ← List.append_assoc, List.getLast?_concat]

private theorem flatMap_words_descriptionLines_iff {style : Style}
    (hfields : Markup.fieldSpans style s = []) :
    (descriptionLines s indent columns style).flatMap words = words s ↔
      ∀ p ∈ placements s indent columns ⟨[], 0⟩ (proseLinks style s),
        p.1.Faithful s indent columns p.2 := by
  have hlinks : ∀ link ∈ proseLinks style s, link ∈ Markup.links s := fun link hlink =>
    (List.mem_filter.mp hlink).1
  cases hprose : proseLinks style s with
  | nil =>
    simp only [descriptionLines, hprose, hfields, flatMap_words_fillParagraphs hind, placements]
    simp
  | cons link links =>
    have hstart : (⟨[], 0⟩ : LinkProgress).offset = Text.size [] := rfl
    obtain ⟨pre, post, hs, hoffset, hpost, hrun⟩ := flatMap_words_foldl_iff hind hlinks
      (List.nil_append s).symm hstart (Or.inl rfl)
    have hclosing : (closingLines s pre.size indent).flatMap words = words post := by
      rw [closingLines, hs, Text.extract?_to_size, Option.getD_some]
      exact flatMap_words_reindentLines hind post
    have hwords : words s = words pre ++ words post := by
      rw [hs]
      rw [← List.append_nil post] at hpost
      exact hpost.words_append
    have hlines : descriptionLines s indent columns style =
        (wrapLinks s (proseLinks style s) 0 indent columns).lines ++
          closingLines s (wrapLinks s (proseLinks style s) 0 indent columns).offset indent := by
      simp only [descriptionLines, hprose, hfields]
    rw [hlines, wrapLinks, hoffset, List.flatMap_append, hclosing, hwords, List.append_left_inj,
      hrun, hprose]
    simp

end Descriptions

/-- Without fields, a description keeps its words exactly if no link that gets a line of its own is
cut off a word or takes a quote away from one; it does where every link starts a word and no quote
ends the word before.  In any case it keeps its characters, blanks aside. -/
theorem description_keeps_words_iff (s indent : Text) (columns : Nat) (style : Style)
    (hind : Text.isBlank indent = true) (hfields : Markup.fieldSpans style s = []) :
    ((descriptionLines s indent columns style).flatMap words = words s ↔
      ∀ p ∈ placements s indent columns ⟨[], 0⟩ (proseLinks style s),
        p.1.Faithful s indent columns p.2) ∧
    ((∀ link ∈ proseLinks style s, Ended (s.takeBytes link.span.start) ∧
        (Text.squeeze (s.takeBytes link.span.start)).getLast? ≠ some '"') →
      (descriptionLines s indent columns style).flatMap words = words s) ∧
    (descriptionLines s indent columns style).flatMap Text.squeeze = Text.squeeze s := by
  have hiff : (descriptionLines s indent columns style).flatMap words = words s ↔
      ∀ p ∈ placements s indent columns ⟨[], 0⟩ (proseLinks style s),
        p.1.Faithful s indent columns p.2 := flatMap_words_descriptionLines_iff hind hfields
  have hlinks : ∀ link ∈ proseLinks style s, link ∈ Markup.links s := fun link hlink =>
    (List.mem_filter.mp hlink).1
  refine ⟨hiff, fun hstarts => hiff.mpr ?_, (carries_descriptionLines hind s columns style).squeeze⟩
  rintro ⟨done, link⟩ hp
  obtain ⟨hsound, hlink, hset⟩ :=
    of_mem_placements hind hlinks ⟨[], s, rfl, rfl, carries_nil⟩ hp
  obtain ⟨hended, hquote⟩ := hstarts link hlink
  have htakes : done.takesQuote s indent columns link = false := by
    by_contra htakes
    rw [Bool.not_eq_false] at htakes
    exact hquote (getLast?_squeeze_of_takesQuote hind hsound (hlinks link hlink) hset htakes)
  rw [LinkProgress.Faithful, htakes, if_neg Bool.false_ne_true]
  exact hended

/-- A scheme inside a word cuts it in two, and a quote that ends the word before a link moves to the
link. -/
theorem link_parts_word_and_takes_quote :
    let profile : Text := "Load the profile:default-settings entry.".toList
    let guide : Text := "Read \"the guide\" https://example.com/manual/page first.".toList
    Text.isBlank [] = true ∧ Markup.fieldSpans .sphinx profile = [] ∧
      Markup.fieldSpans .sphinx guide = [] ∧
      descriptionLines profile [] 20 .sphinx =
        ["Load the pro".toList, "file:default-settings".toList, "entry.".toList] ∧
      descriptionLines guide [] 30 .sphinx =
        ["Read \"the guide".toList, "\"https://example.com/manual/page".toList, "first.".toList] ∧
      (¬ ∀ p ∈ placements profile [] 20 ⟨[], 0⟩ (proseLinks .sphinx profile),
        p.1.Faithful profile [] 20 p.2) ∧
      ¬ ∀ p ∈ placements guide [] 30 ⟨[], 0⟩ (proseLinks .sphinx guide),
        p.1.Faithful guide [] 30 p.2 := by
  intro profile guide
  have hblank : Text.isBlank [] = true := rfl
  have hprofile : Markup.fieldSpans .sphinx profile = [] := by decide +kernel
  have hguide : Markup.fieldSpans .sphinx guide = [] := by decide +kernel
  have hprofileLines : descriptionLines profile [] 20 .sphinx =
      ["Load the pro".toList, "file:default-settings".toList, "entry.".toList] := by decide +kernel
  have hguideLines : descriptionLines guide [] 30 .sphinx =
      ["Read \"the guide".toList, "\"https://example.com/manual/page".toList,
        "first.".toList] := by decide +kernel
  refine ⟨hblank, hprofile, hguide, hprofileLines, hguideLines, ?_, ?_⟩
  · rw [← (description_keeps_words_iff profile [] 20 .sphinx hblank hprofile).1, hprofileLines]
    decide +kernel
  · rw [← (description_keeps_words_iff guide [] 30 .sphinx hblank hguide).1, hguideLines]
    decide +kernel

end DocstringFormat.Docstring
