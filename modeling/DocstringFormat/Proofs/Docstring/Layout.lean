import DocstringFormat.Docstring.Description
import DocstringFormat.Docstring.Literal
import DocstringFormat.Proofs.Markup.Spans
import DocstringFormat.Proofs.Text.Fill

/-!
What the layout of a description keeps.

Lines carry a text (`Carries`) when they hold its characters in order, blanks aside, and no three
double quotes in a row that the text itself does not hold.  Every layout carries its text: prose
(`carries_fillParagraphs`), text with links (`sound_wrapLinks`), fields (`carries_wrapFields`) and
whole descriptions (`carries_wrapDescription`).
-/

set_option autoImplicit false

namespace DocstringFormat.Docstring

open Text (words)
open Markup (Link Marks Span Style)

/-- Whether three double quotes in a row stand nowhere in a text. -/
def QuoteFree (s : Text) : Prop :=
  Text.includes tripleDouble s = false

instance (s : Text) : Decidable (QuoteFree s) :=
  inferInstanceAs (Decidable (_ = false))

theorem includes_iff (part s : Text) : Text.includes part s = true ↔ part <:+: s := by
  unfold Text.includes
  induction s with
  | nil => simp [Text.anyEnd]
  | cons c s ih =>
    rw [Text.anyEnd, Bool.or_eq_true, ih, List.infix_cons_iff, List.isPrefixOf_iff_prefix]

theorem quoteFree_iff (s : Text) : QuoteFree s ↔ ¬ tripleDouble <:+: s := by
  rw [QuoteFree, ← includes_iff, Bool.not_eq_true]

theorem QuoteFree.of_isInfix {s t : Text} (ht : QuoteFree t) (hst : s <:+: t) : QuoteFree s := by
  rw [quoteFree_iff] at ht ⊢
  exact fun h => ht (h.trans hst)

theorem quoteFree_nil : QuoteFree [] := rfl

private theorem infix_append_cons {part s t : List Char} {c : Char} (hc : c ∉ part)
    (h : part <:+: s ++ c :: t) : part <:+: s ∨ part <:+: t := by
  obtain ⟨x, y, hxy⟩ := h
  rcases List.append_eq_append_iff.mp hxy with ⟨as, hs, -⟩ | ⟨bs, hx, hct⟩
  · exact Or.inl ⟨x, as, hs.symm⟩
  · cases bs with
    | nil =>
      refine Or.inl ⟨x, [], ?_⟩
      simpa using hx
    | cons b bs =>
      obtain ⟨rfl, rfl⟩ : c = b ∧ t = bs ++ y := by simpa using hct
      rcases List.append_eq_append_iff.mp hx with ⟨as, -, hpart⟩ | ⟨cs, -, hcs⟩
      · exact absurd (by rw [hpart]; simp) hc
      · cases cs with
        | nil =>
          refine absurd ?_ hc
          rw [List.nil_append] at hcs
          rw [← hcs]
          simp
        | cons d cs =>
          obtain ⟨-, rfl⟩ : c = d ∧ bs = cs ++ part := by simpa using hcs
          exact Or.inr ⟨cs, y, rfl⟩

theorem quoteFree_append_cons {s t : Text} {c : Char} (hc : c ≠ '"') :
    QuoteFree (s ++ c :: t) ↔ QuoteFree s ∧ QuoteFree t := by
  have hmem : c ∉ tripleDouble := by simp [tripleDouble, hc]
  constructor
  · intro h
    exact ⟨h.of_isInfix (List.prefix_append s (c :: t)).isInfix,
      h.of_isInfix ⟨s ++ [c], [], by simp⟩⟩
  · rintro ⟨hs, ht⟩
    rw [quoteFree_iff] at hs ht ⊢
    intro h
    rcases infix_append_cons hmem h with h | h
    · exact hs h
    · exact ht h

theorem ne_quote_of_blank {c : Char} (hc : Character.isBlank c = true) : c ≠ '"' := by
  rintro rfl
  exact absurd hc (by decide)

theorem exists_word_of_isInfix {part s : Text} (hpart : Text.Solid part) (hne : part ≠ [])
    (h : part <:+: s) : ∃ w ∈ words s, part <:+: w := by
  have hword : ∀ {w : Text}, Text.Solid w → part <:+: w → w ∈ words w := by
    intro w hw hinfix
    have hwne : w ≠ [] := by
      rintro rfl
      exact hne (List.infix_nil.mp hinfix)
    rw [Text.words_of_solid hwne hw]
    simp
  induction s using Text.word_induction with
  | solid s hs => exact ⟨s, hword hs h, h⟩
  | add t c w hc hw ih =>
    have hmem : c ∉ part := fun hmem => by
      rw [hpart c hmem] at hc
      cases hc
    rw [Text.words_append_blank t hc]
    rcases infix_append_cons hmem h with h | h
    · obtain ⟨v, hv, hinfix⟩ := ih h
      exact ⟨v, List.mem_append_left _ hv, hinfix⟩
    · exact ⟨w, List.mem_append_right _ (hword hw h), h⟩

theorem quoteFree_of_words {s : Text} (h : ∀ w ∈ words s, QuoteFree w) : QuoteFree s := by
  have hsolid : Text.Solid tripleDouble := by
    intro c hc
    obtain rfl : c = '"' := by simpa [tripleDouble] using hc
    decide
  rw [quoteFree_iff]
  intro hinfix
  obtain ⟨w, hw, hin⟩ := exists_word_of_isInfix hsolid (by simp [tripleDouble]) hinfix
  exact (quoteFree_iff w).mp (h w hw) hin

theorem quoteFree_congr_words {s t : Text} (h : words s = words t) :
    QuoteFree s ↔ QuoteFree t := by
  constructor
  · intro hs
    refine quoteFree_of_words fun w hw => hs.of_isInfix (Text.mem_words ?_).2.2
    rw [h]
    exact hw
  · intro ht
    refine quoteFree_of_words fun w hw => ht.of_isInfix (Text.mem_words ?_).2.2
    rw [← h]
    exact hw

theorem quoteFree_iff_of_words_append {s a b : Text} (h : words s = words a ++ words b) :
    QuoteFree s ↔ QuoteFree a ∧ QuoteFree b := by
  have hjoined : words (a ++ '\n' :: b) = words s := by
    rw [Text.words_append_blank a (by decide), h]
  rw [← quoteFree_congr_words hjoined, quoteFree_append_cons (by decide)]

/-- The lines hold the characters of a text in order, blanks aside, and no triple quote that the
text does not hold. -/
structure Carries (ls : List Text) (s : Text) : Prop where
  squeeze : ls.flatMap Text.squeeze = s.squeeze
  quoteFree : QuoteFree s → ∀ l ∈ ls, QuoteFree l

private theorem carries_of_words {ls : List Text} {s : Text} (h : ls.flatMap words = words s) :
    Carries ls s where
  squeeze := by rw [← Text.flatten_flatMap_words, h, Text.flatten_words]
  quoteFree := by
    intro hs l hl
    refine quoteFree_of_words fun w hw => hs.of_isInfix (Text.mem_words ?_).2.2
    rw [← h]
    exact List.mem_flatMap.mpr ⟨l, hl, hw⟩

theorem carries_nil : Carries [] [] :=
  ⟨rfl, fun _ l hl => by cases hl⟩

theorem Carries.append {ls ms : List Text} {s t : Text} (hs : Carries ls s) (ht : Carries ms t) :
    Carries (ls ++ ms) (s ++ t) where
  squeeze := by rw [List.flatMap_append, hs.squeeze, ht.squeeze, Text.squeeze_append]
  quoteFree := by
    intro hst l hl
    rcases List.mem_append.mp hl with hl | hl
    · exact hs.quoteFree (hst.of_isInfix (List.prefix_append s t).isInfix) l hl
    · exact ht.quoteFree (hst.of_isInfix (List.suffix_append s t).isInfix) l hl

theorem Carries.trans {ls : List Text} {t s : Text} (ht : Carries ls t) (hs : Carries [t] s) :
    Carries ls s where
  squeeze := by
    have h := hs.squeeze
    simp only [List.flatMap_cons, List.flatMap_nil, List.append_nil] at h
    rw [ht.squeeze, h]
  quoteFree := fun hfree => ht.quoteFree (hs.quoteFree hfree t (by simp))

private theorem carries_singleton_of_words {t s : Text} (h : words t = words s) : Carries [t] s :=
  carries_of_words (by simpa using h)

theorem Carries.unlines {ls : List Text} {s : Text} (h : Carries ls s) :
    Carries [Text.unlines ls] s := by
  refine ⟨?_, ?_⟩
  · have hsqueeze : Text.squeeze (Text.unlines ls) = ls.flatMap Text.squeeze := by
      rw [← Text.flatten_words, Text.words_unlines, Text.flatten_flatMap_words]
    simpa [hsqueeze] using h.squeeze
  · intro hs l hl
    rw [List.mem_singleton] at hl
    subst hl
    refine quoteFree_of_words fun w hw => ?_
    rw [Text.words_unlines] at hw
    obtain ⟨l, hl, hw⟩ := List.mem_flatMap.mp hw
    exact (h.quoteFree hs l hl).of_isInfix (Text.mem_words hw).2.2

private theorem words_append_paragraphs (s pre : Text) :
    ∃ p ps, paragraphs s = p :: ps ∧ words (pre ++ p) ++ ps.flatMap words = words (pre ++ s) := by
  fun_induction paragraphs s generalizing pre with
  | case1 => exact ⟨[], [], rfl, by simp⟩
  | case2 rest ih =>
    obtain ⟨p, ps, hp, hw⟩ := ih []
    refine ⟨[], paragraphs rest, rfl, ?_⟩
    simp only [List.nil_append] at hw
    rw [hp, List.flatMap_cons, hw, Text.words_append_blank pre (by decide),
      Text.words_cons_blank (by decide), List.append_nil]
  | case3 c rest h hnil ih =>
    obtain ⟨p, ps, hp, -⟩ := ih []
    rw [hnil] at hp
    cases hp
  | case4 c rest h p ps hp ih =>
    obtain ⟨p', ps', hp', hw⟩ := ih (pre ++ [c])
    rw [hp] at hp'
    cases hp'
    exact ⟨c :: p, ps, rfl, by simpa using hw⟩

private theorem flatMap_words_paragraphs (s : Text) : (paragraphs s).flatMap words = words s := by
  obtain ⟨p, ps, hp, hw⟩ := words_append_paragraphs s []
  simp only [List.nil_append] at hw
  rw [hp, List.flatMap_cons, hw]

theorem flatMap_words_dropLastEmpty (ls : List Text) :
    (dropLastEmpty ls).flatMap words = ls.flatMap words := by
  unfold dropLastEmpty
  split
  · rename_i hlast
    have hsplit : ls.dropLast ++ [[]] = ls := List.dropLast_append_getLast? [] hlast
    conv => rhs; rw [← hsplit]
    simp
  · rfl

section Prose

variable {indent : Text} (hind : Text.isBlank indent = true) (columns : Nat)
include hind

theorem flatMap_words_fillParagraph (p : Text) :
    (fillParagraph indent columns p).flatMap words = words p := by
  rw [fillParagraph, Text.flatMap_words_fill hind hind, Text.words_dedent]

private theorem flatMap_words_paragraphLines (p : Text) :
    (paragraphLines indent columns p).flatMap words = words p := by
  have hfill := flatMap_words_fillParagraph hind columns p
  unfold paragraphLines
  split
  · rename_i hnil
    rw [hnil] at hfill
    rw [← hfill]
    split <;> rfl
  · rw [List.flatMap_append, hfill]
    simp

theorem flatMap_words_fillParagraphs (s : Text) :
    (fillParagraphs s indent columns).flatMap words = words s := by
  have hall : ((paragraphs s).flatMap (paragraphLines indent columns)).flatMap words = words s := by
    rw [List.flatMap_assoc, ← flatMap_words_paragraphs s]
    exact List.flatMap_congr fun p _ => flatMap_words_paragraphLines hind columns p
  simp only [fillParagraphs]
  split
  · exact flatMap_words_fillParagraph hind columns s
  · split
    · exact hall
    · rw [flatMap_words_dropLastEmpty, hall]

private theorem carries_fillParagraphs (s : Text) : Carries (fillParagraphs s indent columns) s :=
  carries_of_words (flatMap_words_fillParagraphs hind columns s)

omit columns in
theorem flatMap_words_reindentLines (s : Text) :
    (reindentLines indent s).flatMap words = words s := by
  have hbody : words ((Text.after? ['\n'] s).getD s) = words s := by
    cases hs : Text.after? ['\n'] s with
    | none => rfl
    | some rest =>
      rw [Text.after?_eq_some] at hs
      rw [hs, List.singleton_append, Text.words_cons_blank (by decide), Option.getD_some]
  simp only [reindentLines]
  rw [List.flatMap_map, ← hbody, ← Text.flatMap_words_lines]
  refine List.flatMap_congr fun line _ => ?_
  split
  · rename_i hblank
    rw [Text.words_of_blank hblank]
    rfl
  · rw [Text.words_blank_append hind, Text.words_trim]

omit columns in
private theorem carries_reindentLines (s : Text) : Carries (reindentLines indent s) s :=
  carries_of_words (flatMap_words_reindentLines hind s)

omit columns in
theorem words_linkLine (link : Text) : words (linkLine indent link) = words link := by
  rw [linkLine, Text.words_blank_append hind, Text.words_join (by simp) (by decide),
    List.flatMap_map]
  simp only [Text.words_trim]
  exact Text.flatMap_words_lines link

end Prose

theorem Carries.dropLastEmpty {ls : List Text} {s : Text} (h : Carries ls s) :
    Carries (dropLastEmpty ls) s where
  squeeze := by
    rw [← Text.flatten_flatMap_words, flatMap_words_dropLastEmpty, Text.flatten_flatMap_words,
      h.squeeze]
  quoteFree := by
    intro hs l hl
    refine h.quoteFree hs l ?_
    unfold Docstring.dropLastEmpty at hl
    split at hl
    · exact List.mem_of_mem_dropLast hl
    · exact hl

def LinkProgress.setsApart (s indent : Text) (columns : Nat) (done : LinkProgress) (link : Link) :
    Bool :=
  !link.bare && decide (done.offset ≤ link.span.start) &&
    decide (columns - indent.size < (s.extract done.offset link.span.stop).length)

def LinkProgress.linesAbove (s indent : Text) (columns : Nat) (done : LinkProgress) (link : Link) :
    List Text :=
  let filled := done.lines ++ fillParagraphs (s.extract done.offset link.span.start) indent columns
  if endsWithBreak (s.takeBytes link.span.start) then filled else dropLastEmpty filled

theorem LinkProgress.step_eq (s indent : Text) (columns : Nat) (done : LinkProgress)
    (link : Link) :
    done.step s indent columns link =
      if done.setsApart s indent columns link then
        ⟨placeLink indent (link.span.of s) (done.linesAbove s indent columns link), link.span.stop⟩
      else done := by
  unfold LinkProgress.step LinkProgress.setsApart
  cases link.bare with
  | true => rfl
  | false =>
    by_cases hpassed : link.span.start < done.offset
    · have hnot : ¬ done.offset ≤ link.span.start := by omega
      simp [hpassed, hnot]
    · have hle : done.offset ≤ link.span.start := by omega
      by_cases hfits : (s.extract done.offset link.span.stop).length ≤ columns - indent.size
      · have hnot : ¬ columns - indent.size < (s.extract done.offset link.span.stop).length := by
          omega
        simp [hpassed, hfits, hnot]
      · have hlong : columns - indent.size < (s.extract done.offset link.span.stop).length := by
          omega
        simp [hpassed, hle, hfits, hlong, LinkProgress.linesAbove]

section Links

variable {indent : Text} (hind : Text.isBlank indent = true)
include hind

private theorem quoteFree_quoted {link : Text} (hlink : QuoteFree link)
    (hstart : ∃ c r, link = c :: r ∧ c ≠ '"' ∧ Character.isBlank c = false) :
    QuoteFree (indent ++ ['"'] ++ Text.trimStart (linkLine indent link)) := by
  obtain ⟨c, r, rfl, hc, hsolid⟩ := hstart
  have hwords : words (Text.trimStart (linkLine indent (c :: r))) = words (c :: r) := by
    rw [Text.words_trimStart, words_linkLine hind]
  have hfree : QuoteFree (Text.trimStart (linkLine indent (c :: r))) :=
    (quoteFree_congr_words hwords).mpr hlink
  obtain ⟨w, ws, hw⟩ := Text.words_cons_solid hsolid r
  rw [List.append_assoc, quoteFree_congr_words (Text.words_blank_append hind _)]
  cases hx : Text.trimStart (linkLine indent (c :: r)) with
  | nil =>
    rw [hx, hw] at hwords
    cases hwords
  | cons d x =>
    obtain ⟨v, vs, hv⟩ := Text.words_cons_solid (Text.trimStart_eq_cons hx) x
    have hdc : d = c := by
      rw [hx, hv, hw] at hwords
      simp at hwords
      exact hwords.1.1
    rw [hx] at hfree
    refine (quoteFree_append_cons (hdc ▸ hc)).mpr ⟨by decide, ?_⟩
    exact hfree.of_isInfix (List.suffix_cons d x).isInfix

private theorem carries_placeLink {ls : List Text} {s link : Text} (h : Carries ls s)
    (hstart : ∃ c r, link = c :: r ∧ c ≠ '"' ∧ Character.isBlank c = false) :
    Carries (placeLink indent link ls) (s ++ link) := by
  have hline : Carries [linkLine indent link] link :=
    carries_singleton_of_words (words_linkLine hind link)
  unfold placeLink
  split
  · exact h.append hline
  · rename_i stripped hlast
    obtain ⟨last, hls, hlast⟩ := Option.bind_eq_some_iff.mp hlast
    rw [Text.before?_eq_some] at hlast
    subst hlast
    obtain ⟨init, rfl⟩ : ∃ init, ls = init ++ [stripped ++ ['"']] :=
      ⟨ls.dropLast, (List.dropLast_append_getLast? _ hls).symm⟩
    have hquoted : Text.squeeze (indent ++ ['"'] ++ Text.trimStart (linkLine indent link)) =
        '"' :: Text.squeeze link := by
      have hx : Text.squeeze (Text.trimStart (linkLine indent link)) = Text.squeeze link := by
        apply Text.squeeze_eq_of_words
        rw [Text.words_trimStart, words_linkLine hind]
      rw [Text.squeeze_append, Text.squeeze_append, Text.squeeze_of_blank hind, hx]
      rfl
    have htrim : Text.squeeze stripped.trimEnd = Text.squeeze stripped :=
      Text.squeeze_eq_of_words (Text.words_trimEnd stripped)
    have hsqueeze : Text.squeeze s = init.flatMap Text.squeeze ++ Text.squeeze stripped ++ ['"'] := by
      rw [← h.squeeze]
      simp [Text.squeeze_append]
      rfl
    refine ⟨?_, ?_⟩
    · simp only [List.dropLast_concat]
      split
      · rename_i hblank
        simp only [List.flatMap_append, List.flatMap_cons, List.flatMap_nil, hquoted]
        rw [Text.squeeze_append, hsqueeze, Text.squeeze_of_blank hblank]
        simp
      · simp only [List.flatMap_append, List.flatMap_cons, List.flatMap_nil, hquoted, htrim]
        rw [Text.squeeze_append, hsqueeze]
        simp
    · intro hfree l hl
      have hs : QuoteFree s := hfree.of_isInfix (List.prefix_append s link).isInfix
      have hlink : QuoteFree link := hfree.of_isInfix (List.suffix_append s link).isInfix
      have hold := h.quoteFree hs
      have hstripped : QuoteFree stripped.trimEnd := by
        have hlast := hold (stripped ++ ['"']) (by simp)
        exact hlast.of_isInfix ((Text.dropEndWhile_isPrefix _ stripped).trans
          (List.prefix_append _ _)).isInfix
      have hnew := quoteFree_quoted hind hlink hstart
      simp only [List.dropLast_concat] at hl
      split at hl
      · rcases List.mem_append.mp hl with hl | hl
        · exact hold l (List.mem_append_left _ hl)
        · rw [List.mem_singleton.mp hl]
          exact hnew
      · rcases List.mem_append.mp hl with hl | hl
        · exact hold l (List.mem_append_left _ hl)
        · rcases List.mem_cons.mp hl with rfl | hl
          · exact hstripped
          · rw [List.mem_singleton.mp hl]
            exact hnew

omit hind in
/-- A link that gets a line of its own stands behind what is laid out already. -/
theorem exists_parts_of_setsApart {s pre post : Text} {columns : Nat} {done : LinkProgress}
    {link : Link} (hs : s = pre ++ post) (hoffset : done.offset = pre.size)
    (hlink : link ∈ Markup.links s) (happart : done.setsApart s indent columns link = true) :
    ∃ mid hit b, s = pre ++ (mid ++ (hit ++ b)) ∧ Markup.afterLink? (hit ++ b) = some b ∧
      hit ≠ [] ∧ s.extract done.offset link.span.start = mid ∧
      s.takeBytes link.span.start = pre ++ mid ∧ link.span.of s = hit ∧
      link.span.stop = (pre ++ mid ++ hit).size := by
  obtain ⟨a, hit, b, hab, hne, hafter, hspan⟩ := Markup.exists_of_mem_links hlink
  have hle : pre.size ≤ a.size := by
    simp only [LinkProgress.setsApart, hspan, hoffset, Bool.and_eq_true, decide_eq_true_eq]
      at happart
    exact happart.1.2
  obtain ⟨mid, rfl⟩ : pre <+: a :=
    Text.prefix_of_size_le (s := s) ⟨post, hs.symm⟩ ⟨hit ++ b, hab.symm⟩ hle
  refine ⟨mid, hit, b, by rw [hab, List.append_assoc], hafter, hne, ?_, ?_, ?_, ?_⟩
  · rw [hspan, hoffset, hab, Text.size_append, List.append_assoc]
    exact Text.extract_size pre mid (hit ++ b)
  · rw [hspan, hab]
    exact Text.takeBytes_size _ _
  · rw [Span.of, hspan, hab]
    exact Text.extract_size (pre ++ mid) hit b
  · rw [hspan, Text.size_append (pre ++ mid)]

/-- The lines so far carry the text up to the offset, which is a boundary. -/
def LinkProgress.Sound (s : Text) (done : LinkProgress) : Prop :=
  ∃ pre post, s = pre ++ post ∧ done.offset = pre.size ∧ Carries done.lines pre

theorem LinkProgress.sound_step {s : Text} {columns : Nat} {done : LinkProgress} {link : Link}
    (hdone : done.Sound s) (hlink : link ∈ Markup.links s) :
    (done.step s indent columns link).Sound s := by
  rw [LinkProgress.step_eq]
  split
  · rename_i happart
    obtain ⟨pre, post, hs, hoffset, hcarries⟩ := hdone
    obtain ⟨mid, hit, b, hcut, hafter, hne, hbetween, -, hof, hstop⟩ :=
      exists_parts_of_setsApart hs hoffset hlink happart
    have hfilled := hcarries.append (carries_fillParagraphs hind columns mid)
    obtain ⟨c, r, rfl⟩ := List.exists_cons_of_ne_nil hne
    have hstart : ∃ d t, c :: r = d :: t ∧ d ≠ '"' ∧ Character.isBlank d = false :=
      ⟨c, r, rfl, Markup.link_start_ne_quote hafter, Markup.link_start_solid hafter⟩
    refine ⟨pre ++ mid ++ (c :: r), b, by rw [hcut]; simp, hstop, ?_⟩
    simp only [LinkProgress.linesAbove, hbetween, hof]
    split
    · exact carries_placeLink hind hfilled hstart
    · exact carries_placeLink hind hfilled.dropLastEmpty hstart
  · exact hdone

omit hind in
private theorem LinkProgress.offset_step_le {s : Text} {columns bound : Nat} {done : LinkProgress}
    {link : Link} (hdone : done.offset ≤ bound) (hlink : link.span.stop ≤ bound) :
    (done.step s indent columns link).offset ≤ bound := by
  unfold LinkProgress.step
  split
  · exact hdone
  · split
    · exact hdone
    · exact hlink

private theorem sound_wrapLinks {s : Text} {links : List Link} (columns bound : Nat)
    (hlinks : ∀ link ∈ links, link ∈ Markup.links s ∧ link.span.stop ≤ bound) :
    (wrapLinks s links 0 indent columns).Sound s ∧
      (wrapLinks s links 0 indent columns).offset ≤ bound := by
  -- Links that overlap what is done already are skipped, so the offset need not be a link's end.
  suffices hrun : ∀ done : LinkProgress, done.Sound s → done.offset ≤ bound →
      (links.foldl (LinkProgress.step s indent columns) done).Sound s ∧
        (links.foldl (LinkProgress.step s indent columns) done).offset ≤ bound from
    hrun ⟨[], 0⟩ ⟨[], s, rfl, rfl, carries_nil⟩ (Nat.zero_le bound)
  induction links with
  | nil => exact fun done hsound hle => ⟨hsound, hle⟩
  | cons link links ih =>
    intro done hsound hle
    obtain ⟨hmem, hstop⟩ := hlinks link (by simp)
    rw [List.foldl_cons]
    refine ih (fun l hl => hlinks l (List.mem_cons_of_mem _ hl)) _ ?_ ?_
    · exact LinkProgress.sound_step hind hsound hmem
    · exact LinkProgress.offset_step_le hle hstop

end Links

section Fields

variable {indent : Text} (hind : Text.isBlank indent = true) (columns : Nat)
include hind

omit columns in
theorem isBlank_continuationIndent : Text.isBlank (continuationIndent indent) = true := by
  unfold continuationIndent
  split
  · rw [Text.isBlank_append, hind, Text.isBlank_replicate_space]
    rfl
  · rw [Text.isBlank_append, hind]
    rfl

private theorem carries_wrapField (name body : Text) :
    Carries (wrapField name body indent columns) (name ++ body) := by
  have hdeep := isBlank_continuationIndent hind
  have hfill := Text.flatMap_words_fill hind hdeep (name ++ body) columns
  apply carries_of_words
  rw [← hfill, wrapField]
  split
  · rename_i hnil
    rw [hnil]
  · rename_i first rest hcons
    rw [hcons, List.flatMap_cons, List.flatMap_cons, List.flatMap_map]
    simp only [Text.words_blank_append hind, Text.words_blank_append hdeep, Text.words_unwrap]

omit hind columns in
theorem splitAtBreak_append (s : Text) : (splitAtBreak s).1 ++ (splitAtBreak s).2 = s := by
  fun_induction splitAtBreak s with
  | case1 => rfl
  | case2 rest => rfl
  | case3 c rest h head tail heq ih =>
    rw [heq] at ih
    simp only [List.cons_append, List.cons.injEq, true_and]
    exact ih

omit hind columns in
private theorem words_joinBody (s : Text) : words (joinBody s) = words s := by
  have hunwrap := Text.words_unwrap s
  unfold joinBody
  split
  · rename_i hnil
    rw [← hunwrap, hnil]
  · rename_i c rest hcons
    rw [← hunwrap, hcons]
    split
    · rfl
    · exact Text.words_cons_blank (by decide) _

omit hind columns in
/-- A name that ends with a colon keeps the quotes of its body apart from its own. -/
private theorem carries_name_joinBody (name s : Text) :
    Carries [name ++ [':'] ++ joinBody s] (name ++ [':'] ++ s) where
  squeeze := by
    have hbody := Text.squeeze_eq_of_words (words_joinBody s)
    simp only [List.flatMap_cons, List.flatMap_nil, List.append_nil, Text.squeeze_append, hbody]
  quoteFree := by
    intro hfree l hl
    rw [List.mem_singleton] at hl
    subst hl
    have hcolon : ∀ t : Text, QuoteFree (name ++ [':'] ++ t) ↔ QuoteFree name ∧ QuoteFree t := by
      intro t
      rw [List.append_assoc, List.singleton_append]
      exact quoteFree_append_cons (by decide)
    rw [hcolon] at hfree ⊢
    exact ⟨hfree.1, (quoteFree_congr_words (words_joinBody s)).mpr hfree.2⟩

private theorem carries_trailingLines (trailing : Text) :
    Carries (trailingLines trailing indent columns) trailing := by
  apply carries_of_words
  have hdrop : words (trailing.dropWhile (· == '\n')) = words trailing := by
    induction trailing with
    | nil => rfl
    | cons c trailing ih =>
      by_cases hc : c = '\n'
      · subst hc
        rw [List.dropWhile_cons_of_pos (by simp), ih, Text.words_cons_blank (by decide)]
      · rw [List.dropWhile_cons_of_neg (by simpa using hc)]
  rw [trailingLines, flatMap_words_dropLastEmpty, flatMap_words_fillParagraphs hind, hdrop]

omit hind columns in
private theorem carries_of_blank {t : Text} (h : Text.isBlank t = true) : Carries [] t :=
  carries_of_words (by rw [Text.words_of_blank h, List.flatMap_nil])

omit hind columns in
private theorem carries_separator (isLast : Bool) : Carries (separator isLast) [] := by
  cases isLast <;> exact carries_of_words rfl

private theorem carries_fieldLines (name segment : Text) (isLast : Bool) :
    Carries (fieldLines indent columns ⟨name ++ [':'], segment⟩ isLast)
      (name ++ [':'] ++ segment) := by
  have hsegment := splitAtBreak_append segment
  cases hsplit : splitAtBreak segment with
  | mk head trailing =>
    rw [hsplit] at hsegment
    subst hsegment
    have htrailing := carries_trailingLines hind columns trailing
    have hsep := carries_separator isLast
    simp only [fieldLines, hsplit]
    split
    · rename_i hbreak
      obtain rfl : head = [] := by
        simp only [Bool.and_eq_true, List.isEmpty_iff] at hbreak
        exact hbreak.1
      have hline : Carries [indent ++ (name ++ [':']) ++ ['\n']] (name ++ [':']) := by
        apply carries_singleton_of_words
        rw [Text.words_append_of_blank _ (by decide), Text.words_blank_append hind]
      split
      · rename_i hblank
        exact hline.append (carries_of_blank hblank)
      · have h := (hline.append htrailing).append hsep
        simpa using h
    · have hbody : Carries
          (if indent.size + (name ++ [':']).size + (joinBody head).size ≤ columns then
            [indent ++ (name ++ [':']) ++ joinBody head]
          else wrapField (name ++ [':']) (joinBody head) indent columns)
          (name ++ [':'] ++ head) := by
        refine Carries.trans ?_ (carries_name_joinBody name head)
        split
        · apply carries_singleton_of_words
          rw [List.append_assoc indent, Text.words_blank_append hind]
        · exact carries_wrapField hind columns _ _
      split
      · have h := ((hbody.append (carries_separator false)).append htrailing).append hsep
        simpa [separator] using h
      · rename_i hblank
        have hbehind : Carries [] trailing := carries_of_blank (by simpa using hblank)
        split
        · have h := (hbody.append hbehind).append hsep
          simpa using h
        · have h := hbody.append hbehind
          simpa using h

omit hind columns in
private theorem extract_name {full pre a body b : Text}
    (hfull : full = pre ++ (a ++ ((body ++ [':']) ++ b))) :
    full.extract (pre.size + a.size) (pre.size + a.size + (body ++ [':']).size) =
      body ++ [':'] := by
  rw [hfull, ← List.append_assoc, ← Text.size_append]
  exact Text.extract_size (pre ++ a) (body ++ [':']) b

omit hind columns in
/-- The fields at marked places have colons after their names, and their texts make up the text
from the first mark on. -/
theorem fieldsAt_spec {full pre s : Text} {span : Span} {spans : List Span}
    (hfull : full = pre ++ s) (hmarks : Marks pre.size s (span :: spans)) :
    (∀ field ∈ fieldsAt full (span :: spans), ∃ name, field.name = name ++ [':']) ∧
      ∃ a b, s = a ++ b ∧ span.start = (pre ++ a).size ∧
        (fieldsAt full (span :: spans)).flatMap (fun field => field.name ++ field.segment) = b := by
  induction spans generalizing pre s span with
  | nil =>
    cases hmarks with
    | some _ a body b _ rest =>
      have hname := extract_name hfull
      have hbehind : full.dropBytes (pre.size + a.size + (body ++ [':']).size) = b := by
        have hcut := Text.dropBytes_size (pre ++ a ++ (body ++ [':'])) b
        rw [Text.size_append (pre ++ a), Text.size_append pre] at hcut
        rw [hfull]
        simpa using hcut
      simp only [fieldsAt, Span.of, hname, hbehind, List.mem_singleton]
      refine ⟨?_, a, (body ++ [':']) ++ b, rfl, (Text.size_append pre a).symm, by simp⟩
      rintro field rfl
      exact ⟨body, rfl⟩
  | cons next spans ih =>
    cases hmarks with
    | some _ a body b _ rest =>
      have hname := extract_name hfull
      have hpre : pre.size + a.size + (body ++ [':']).size =
          (pre ++ a ++ (body ++ [':'])).size := by
        simp only [Text.size_append]
      have hfull' : full = pre ++ a ++ (body ++ [':']) ++ b := by
        rw [hfull]
        simp
      rw [hpre] at rest
      obtain ⟨hnames, a', b', rfl, hstart, htexts⟩ := ih hfull' rest
      have hsegment : full.extract (pre.size + a.size + (body ++ [':']).size) next.start = a' := by
        rw [hpre, hstart, Text.size_append _ a', hfull']
        exact Text.extract_size _ a' b'
      refine ⟨?_, a, (body ++ [':']) ++ (a' ++ b'), rfl, (Text.size_append pre a).symm, ?_⟩
      · intro field hfield
        rw [fieldsAt] at hfield
        rcases List.mem_cons.mp hfield with rfl | hfield
        · exact ⟨body, hname⟩
        · exact hnames field hfield
      · rw [fieldsAt, List.flatMap_cons, htexts, Span.of, hname, hsegment]
        simp

private theorem carries_fieldsLines {fields : List Field}
    (hnames : ∀ field ∈ fields, ∃ name, field.name = name ++ [':']) :
    Carries (fieldsLines indent columns fields)
      (fields.flatMap fun field => field.name ++ field.segment) := by
  induction fields with
  | nil => exact carries_nil
  | cons field fields ih =>
    obtain ⟨name, hname⟩ := hnames field (by simp)
    have hfield := carries_fieldLines hind columns name field.segment fields.isEmpty
    rw [← hname] at hfield
    rw [fieldsLines, List.flatMap_cons]
    exact hfield.append (ih fun f hf => hnames f (List.mem_cons_of_mem _ hf))

private theorem carries_wrapFields {s pre post : Text} {span : Span} {spans : List Span}
    {ls : List Text}
    (hs : s = pre ++ post) (hls : Carries ls pre) (hmarks : Marks 0 s (span :: spans))
    (hle : pre.size ≤ span.start) :
    Carries (wrapFields s (span :: spans) ls pre.size indent columns) s := by
  obtain ⟨hnames, a, b, hab, hstart, htexts⟩ := fieldsAt_spec (List.nil_append s).symm hmarks
  rw [List.nil_append] at hstart
  rw [hstart] at hle
  obtain ⟨mid, rfl⟩ := Text.prefix_of_size_le (s := s) ⟨post, hs.symm⟩ ⟨b, hab.symm⟩ hle
  have hmin : min pre.size span.start = pre.size := by
    rw [hstart]
    exact Nat.min_eq_left hle
  have hintro : s.extract? pre.size span.start = some mid := by
    rw [hstart, Text.size_append, hab, List.append_assoc]
    exact Text.extract?_size pre mid b
  have hfields := carries_fieldsLines hind columns hnames
  rw [htexts] at hfields
  have h := (hls.append (carries_fillParagraphs hind columns mid)).append hfields
  simp only [wrapFields, hmin, hintro, Option.getD_some]
  rw [← hab] at h
  exact h

end Fields

private theorem stop_le_of_not_overlaps {total : Nat} {a first : Span} {spans : List Span}
    (hpos : a.start < a.stop) (htotal : a.stop ≤ total)
    (h : ∀ entry ∈ fieldEntries total (first :: spans), a.overlaps entry = false) :
    a.stop ≤ first.start := by
  induction spans generalizing first with
  | nil =>
    have hentry := h ⟨first.start, total⟩ (by simp [fieldEntries])
    simp only [Span.overlaps, Bool.and_eq_false_iff, decide_eq_false_iff_not] at hentry
    omega
  | cons next spans ih =>
    have hnext : a.stop ≤ next.start := by
      refine ih fun entry hentry => h entry ?_
      rw [fieldEntries]
      exact List.mem_cons_of_mem _ hentry
    have hentry := h ⟨first.start, next.start⟩ (by simp [fieldEntries])
    simp only [Span.overlaps, Bool.and_eq_false_iff, decide_eq_false_iff_not] at hentry
    omega

section Descriptions

variable {indent : Text} (hind : Text.isBlank indent = true)
include hind

theorem carries_descriptionLines (s : Text) (columns : Nat) (style : Style) :
    Carries (descriptionLines s indent columns style) s := by
  have hmarks := Markup.marks_fieldSpans style s
  have hlinks : ∀ link ∈ proseLinks style s, link ∈ Markup.links s := fun link hlink =>
    (List.mem_filter.mp hlink).1
  have hstop : ∀ link ∈ Markup.links s, link.span.start < link.span.stop ∧
      link.span.stop ≤ s.size := by
    intro link hlink
    obtain ⟨a, hit, b, hab, hne, -, hspan⟩ := Markup.exists_of_mem_links hlink
    have hpos := Text.size_pos hne
    rw [hspan, hab]
    simp only [Text.size_append]
    omega
  simp only [descriptionLines]
  cases hspans : Markup.fieldSpans style s with
  | nil =>
    -- Without fields the text after the last link is only indented anew.
    have hdone := (sound_wrapLinks hind columns s.size
      fun link hlink => ⟨hlinks link hlink, (hstop link (hlinks link hlink)).2⟩).1
    obtain ⟨pre, post, hs, hoffset, hcarries⟩ := hdone
    have hrest : closingLines s (wrapLinks s (proseLinks style s) 0 indent columns).offset indent =
        reindentLines indent post := by
      rw [closingLines, hoffset, hs, Text.extract?_to_size, Option.getD_some]
    cases hprose : proseLinks style s with
    | nil => exact carries_fillParagraphs hind columns s
    | cons link links =>
      simp only
      rw [← hprose, hrest]
      have h := hcarries.append (carries_reindentLines hind post)
      rw [← hs] at h
      exact h
  | cons span spans =>
    rw [hspans] at hmarks
    have hbefore : ∀ link ∈ proseLinks style s, link.span.stop ≤ span.start := by
      intro link hlink
      obtain ⟨hpos, htotal⟩ := hstop link (hlinks link hlink)
      have hfilter := (List.mem_filter.mp hlink).2
      simp only [hspans, Bool.and_eq_true, Bool.not_eq_true', List.any_eq_false] at hfilter
      have hapart : ∀ entry ∈ fieldEntries s.size (span :: spans),
          link.span.overlaps entry = false := by
        intro entry hentry
        simpa using hfilter.2 entry hentry
      exact stop_le_of_not_overlaps hpos htotal hapart
    obtain ⟨⟨pre, post, hs, hoffset, hcarries⟩, hle⟩ := sound_wrapLinks hind columns
      span.start fun link hlink => ⟨hlinks link hlink, hbefore link hlink⟩
    rw [hoffset] at hle
    have h := carries_wrapFields hind columns hs hcarries hmarks hle
    rw [← hoffset] at h
    cases hprose : proseLinks style s with
    | nil => rwa [hprose] at h
    | cons link links => rwa [hprose] at h

omit hind in
/-- A description stays as it is for an example in it, is indented anew, or is laid out in new
lines. -/
theorem wrapDescription_cases (o : DescriptionOptions) (s indent : Text) :
    Text.includes ['>', '>', '>'] (Text.dropLeadingBlankLines s) = true ∧
        wrapDescription o s indent = Text.dropLeadingBlankLines s ∨
      ∃ t, t = Text.trimEnd (Text.reindent indent (Text.dropLeadingBlankLines s)) ∧
        (wrapDescription o s indent = t ∨ wrapDescription o s indent =
          indent ++ Text.trim (Text.unlines (descriptionLines t indent o.columns o.style))) := by
  unfold wrapDescription treatment
  dsimp only
  split
  · rename_i t ht
    split at ht
    · rename_i hexample
      cases ht
      exact Or.inl ⟨hexample, rfl⟩
    · split at ht
      · cases ht
        exact Or.inr ⟨_, rfl, Or.inl rfl⟩
      · cases ht
  · rename_i t ht
    split at ht
    · cases ht
    · split at ht
      · cases ht
      · cases ht
        exact Or.inr ⟨_, rfl, Or.inr rfl⟩

theorem carries_wrapDescription (o : DescriptionOptions) (description : Text) :
    Carries [wrapDescription o description indent] description := by
  have hkept := Text.words_dropLeadingBlankLines description
  rcases wrapDescription_cases o description indent with ⟨-, heq⟩ | ⟨t, ht, hcases⟩
  · rw [heq]
    exact carries_singleton_of_words hkept
  · have hindented : words t = words description := by
      rw [ht, Text.words_trimEnd, Text.words_reindent hind, hkept]
    rcases hcases with heq | heq
    · rw [heq]
      exact carries_singleton_of_words hindented
    · have hlines := (carries_descriptionLines hind t o.columns o.style).unlines
      have htext := hlines.trans (carries_singleton_of_words hindented)
      rw [heq]
      refine Carries.trans (carries_singleton_of_words ?_) htext
      rw [Text.words_blank_append hind, Text.words_trim]

theorem squeeze_wrapDescription (o : DescriptionOptions) (description : Text) :
    Text.squeeze (wrapDescription o description indent) = Text.squeeze description := by
  have hcarries := (carries_wrapDescription hind o description).squeeze
  rwa [List.flatMap_singleton] at hcarries

end Descriptions

end DocstringFormat.Docstring
