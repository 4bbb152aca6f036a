import DocstringFormat.Proofs.Docstring.Characters
import DocstringFormat.Proofs.Source.Preserved

/-!
Sources that formatting leaves alone.

A revision that drops a blank line or puts another docstring in place of one always shows: a new
docstring is neither a beginning nor a continuation of the old one, and a dropped line leaves fewer
line feeds before the next line of code.  So a source is formatted to itself exactly if no blank
line is dropped and every docstring is formatted to itself (`tryFormat_eq_self_iff`).
-/

set_option autoImplicit false

namespace DocstringFormat.Source

section Breaks

variable {u v w : Text}

/-- The number of line feeds before the first character that is neither one nor spacing. -/
def leadingBreaks : Text → Nat
  | [] => 0
  | c :: s =>
    if c = '\n' then leadingBreaks s + 1 else if isSpacing c then leadingBreaks s else 0

private theorem leadingBreaks_append_le (u : Text) (h : leadingBreaks v ≤ leadingBreaks w) :
    leadingBreaks (u ++ v) ≤ leadingBreaks (u ++ w) := by
  induction u with
  | nil => exact h
  | cons c u ih =>
    rw [List.cons_append, List.cons_append, leadingBreaks, leadingBreaks]
    split
    · exact Nat.succ_le_succ ih
    · split
      · exact ih
      · exact Nat.le_refl 0

private theorem leadingBreaks_spacing (h : ∀ c ∈ u, isSpacing c = true) :
    leadingBreaks (u ++ v) = leadingBreaks v := by
  induction u with
  | nil => rfl
  | cons c u ih =>
    have hc := h c List.mem_cons_self
    rw [List.cons_append, leadingBreaks, if_neg (isSpacing_ne_newline hc), if_pos hc]
    exact ih fun d hd => h d (List.mem_cons_of_mem c hd)

private theorem leadingBreaks_blank (h : ∀ c ∈ u, isSpacing c = true) :
    leadingBreaks (u ++ ['\n'] ++ v) = leadingBreaks v + 1 := by
  rw [List.append_assoc, leadingBreaks_spacing h]
  rfl

end Breaks

section Revisions

variable {ρ : Nat → Revision} {s x : Text} {tokens closing pre : List Token} {ps : List Piece}
  {last : Nat}

/-- The new texts of a revision begin with code, and none begins the old text or begins with it. -/
structure RevisesVisibly (ρ : Nat → Revision) (tokens : List Token) : Prop
    extends Revises ρ tokens where
  code : ∀ i text, ρ i = .replace text → ∀ y, leadingBreaks (text ++ y) = 0
  apart : ∀ pre t post text, tokens = pre ++ t :: post → ρ pre.length = .replace text →
    ∀ a b, text ++ a ≠ t.text ++ b

theorem Ahead.dropped {p : Piece} (h : Ahead s tokens closing pre x (p :: ps) last)
    (hρ : Revises ρ tokens) (hcr : '\r' ∉ s) (hend : lastRow s = [])
    (hdrop : ρ pre.length = .drop) :
    (∀ c ∈ p.gap, isSpacing c = true) ∧ p.text = p.gap ++ ['\n'] := by
  have hblank : ∀ i ∈ [pre.length], IsBlankAt tokens i := by
    intro i hi
    rw [List.mem_singleton.mp hi]
    exact hρ.drop _ hdrop
  obtain ⟨hmem, -, htext⟩ := h.blank hcr hend hblank (by simp)
  exact ⟨spacing_of_gap h.fits.gap hmem, by rw [Piece.text, htext]⟩

private theorem leadingBreaks_revisedText_le (hρ : RevisesVisibly ρ tokens) (hcr : '\r' ∉ s)
    (hend : lastRow s = []) (h : Ahead s tokens closing pre x ps last) :
    leadingBreaks (revisedText ρ pre.length ps) ≤ leadingBreaks (spell ps) := by
  induction ps generalizing pre x with
  | nil => exact Nat.le_refl 0
  | cons p ps ih =>
    have hrest := ih h.step
    rw [List.length_append, List.length_singleton] at hrest
    have hspell : spell (p :: ps) = p.text ++ spell ps := by rw [spell_cons, Piece.text]
    rw [revisedText, hspell]
    cases hrevision : ρ pre.length with
    | keep => exact leadingBreaks_append_le _ hrest
    | drop =>
      obtain ⟨hgap, htext⟩ := h.dropped hρ.toRevises hcr hend hrevision
      rw [Revision.textOf, List.nil_append, htext, leadingBreaks_blank hgap]
      exact Nat.le_succ_of_le hrest
    | replace text =>
      rw [Revision.textOf, List.append_assoc,
        leadingBreaks_spacing (spacing_of_gap h.fits.gap (h.gaps p (by simp))),
        hρ.code _ _ hrevision]
      exact Nat.zero_le _

private theorem keeps_of_revisedText_eq (hρ : RevisesVisibly ρ tokens) (hcr : '\r' ∉ s)
    (hend : lastRow s = []) (h : Ahead s tokens closing pre x ps last)
    (heq : revisedText ρ pre.length ps = spell ps) : Keeps ρ pre.length ps.length := by
  induction ps generalizing pre x with
  | nil => exact fun j hj => absurd hj (Nat.not_lt_zero j)
  | cons p ps ih =>
    have hspell : spell (p :: ps) = p.text ++ spell ps := by rw [spell_cons, Piece.text]
    have hrest := @ih (x ++ p.text) (pre ++ [p.token]) h.step
    have hle := leadingBreaks_revisedText_le hρ hcr hend h.step
    rw [List.length_append, List.length_singleton] at hrest hle
    rw [revisedText, hspell] at heq
    cases hrevision : ρ pre.length with
    | keep =>
      rw [hrevision] at heq
      have hmore := hrest (List.append_cancel_left heq)
      intro j hj
      cases j with
      | zero => exact hrevision
      | succ j =>
        rw [Nat.add_comm j, ← Nat.add_assoc]
        exact hmore j (Nat.lt_of_succ_lt_succ hj)
    | drop =>
      obtain ⟨hgap, htext⟩ := h.dropped hρ.toRevises hcr hend hrevision
      rw [hrevision, Revision.textOf, List.nil_append, htext] at heq
      rw [heq, leadingBreaks_blank hgap] at hle
      exact absurd hle (Nat.not_succ_le_self _)
    | replace text =>
      rw [hrevision, Revision.textOf, Piece.text, List.append_assoc, List.append_assoc] at heq
      exact absurd (List.append_cancel_left heq) (hρ.apart _ _ _ _ h.tokens hrevision _ _)

end Revisions

section Sources

variable {o : Options} {s : Text} {tokens closing : List Token} {ps : List Piece} {last : Nat}

private theorem ends_of_literal {t : Token} {depth : Nat} {y gap rest : Text}
    (hkind : t.kind = .string)
    (hliteral : Docstring.isLiteral t.text = true) (hlawful : t.Lawful depth y gap rest) :
    (∀ c, t.text.head? = some c → Character.isBlank c = false) ∧
      ∀ c, t.text.getLast? = some c → Character.isBlank c = false := by
  constructor
  · obtain ⟨q, hq, hopening⟩ := List.any_eq_true.mp hliteral
    obtain ⟨body, hbody⟩ := List.isPrefixOf_iff_prefix.mp hopening
    obtain ⟨d, rest, hd, hblank⟩ :=
      exists_head_of_opening (List.mem_append_left _ (List.mem_map_of_mem hq))
    intro c hc
    rw [← hbody, hd] at hc
    cases hc
    exact hblank
  · rw [Token.Lawful, hkind] at hlawful
    obtain ⟨-, q, hq, hquote⟩ := hlawful
    intro c hc
    rw [hq] at hc
    cases hc
    rcases hquote with rfl | rfl <;> decide

private theorem revisesVisibly_revision (hahead : Ahead s tokens closing [] [] ps last)
    (hkinds : ∀ t ∈ closing, t.kind ≠ .string ∧ t.kind ≠ .nl ∧ t.kind ≠ .encoding)
    (h : tokenize s = .ok tokens) : RevisesVisibly (revision o tokens) tokens := by
  have hρ := revises_revision o h
  refine ⟨hρ, ?_, ?_⟩
  · intro i text htext y
    obtain ⟨site, -, -, -, -, -, hne, rfl⟩ := exists_of_replace htext
    obtain ⟨opening, hopening, body, hbody⟩ :=
      exists_canonical_of_changed (Text.isBlank_leadingBlanks _) (newText_ne hne).2 hne
    obtain ⟨c, rest, rfl, hblank⟩ := exists_head_of_opening (List.mem_append_right _ hopening)
    have hc : c ≠ '\n' := by
      rintro rfl
      cases hblank
    have hspace : isSpacing c = false := by
      rw [Bool.eq_false_iff]
      intro hspacing
      rw [isBlank_of_isSpacing hspacing] at hblank
      cases hblank
    rw [hbody, List.cons_append, List.cons_append, leadingBreaks, if_neg hc,
      if_neg (by simp [hspace])]
  · intro pre t post text htokens htext a b heq
    obtain ⟨hkind, hliteral, -⟩ := (hρ.replace _ _ htext).of_split htokens
    obtain ⟨site, -, pre', htokens', hlength, -, hne, rfl⟩ := exists_of_replace htext
    obtain ⟨rfl, hrest⟩ := List.append_inj (htokens'.symm.trans htokens) hlength
    obtain ⟨rfl, rfl⟩ := List.cons.inj hrest
    obtain ⟨y, p, rs, hp, hpiece⟩ := hahead.exists_piece hkinds htokens (Or.inl hkind)
    have hlawful := hpiece.fits.lawful
    rw [hp] at hlawful
    obtain ⟨hhead, hlast⟩ := ends_of_literal hkind hliteral hlawful
    exact hne (Docstring.format_eq_of_append (Text.isBlank_leadingBlanks _) hhead hlast
      (newText_ne hne).2 heq)

private theorem exists_format_of_tryFormat (hcr : '\r' ∉ s) (h : tokenize s = .ok tokens)
    {out : Except Error Text} (hok : (tryFormat o s).result = .ok out) :
    ∀ site ∈ sites tokens, site.IsRewritten o ((blocks tokens).map Block.docstring) →
      ∃ text, (Docstring.format o site.token.lineIndent site.token.text).result = .ok text := by
  rw [result_tryFormat o hcr, result_formatCode o h] at hok
  cases hsites : (formatSites o ((blocks tokens).map Block.docstring) (sites tokens)).result with
  | error fault =>
    rw [hsites] at hok
    cases hok
  | ok ts =>
    intro site hsite hrewritten
    have hformatted := List.forall₂_iff_zip.mp (forall₂_formatSites hsites)
    obtain ⟨t, hzip⟩ := exists_mem_zip hformatted.1 hsite
    have hformat := hformatted.2 hzip
    rw [result_format (kind_before_ne_encoding h hsite), if_pos hrewritten] at hformat
    cases htext : (Docstring.format o site.token.lineIndent site.token.text).result with
    | error fault =>
      rw [htext] at hformat
      cases hformat
    | ok text => exact ⟨text, rfl⟩

/-- No blank line is dropped and every docstring is formatted to itself. -/
def IsSettled (o : Options) (tokens : List Token) : Prop :=
  droppedBlanks o (blocks tokens) (sites tokens) = [] ∧
    ∀ site ∈ sites tokens, site.IsRewritten o ((blocks tokens).map Block.docstring) →
      (Docstring.format o site.token.lineIndent site.token.text).result = .ok site.token.text

private theorem isSettled_of_keeps (h : tokenize s = .ok tokens)
    (hformat : ∀ site ∈ sites tokens, site.IsRewritten o ((blocks tokens).map Block.docstring) →
      ∃ text, (Docstring.format o site.token.lineIndent site.token.text).result = .ok text)
    (hkeeps : Keeps (revision o tokens) 0 tokens.length) : IsSettled o tokens := by
  have hkeep : ∀ pre t post, tokens = pre ++ t :: post →
      revision o tokens pre.length = .keep := by
    intro pre t post htokens
    have hkeep := hkeeps pre.length (by simp [htokens])
    rwa [Nat.zero_add] at hkeep
  constructor
  · rw [List.eq_nil_iff_forall_not_mem]
    intro i hi
    obtain ⟨pre, t, post, htokens, hlength, hblank, -⟩ := blank_of_dropped h hi
    have hrevision := hkeep _ _ _ htokens
    rw [revision_of_split htokens] at hrevision
    dsimp only at hrevision
    split at hrevision
    · cases hrevision
    · rw [hlength, if_pos hi] at hrevision
      cases hrevision
  · intro site hsite hrewritten
    obtain ⟨pre, htokens, hindex, hbefore⟩ := mem_sites hsite
    obtain ⟨text, htext⟩ := hformat site hsite hrewritten
    have hsame := newText_of_revision (o := o) htokens
    rw [hkeep _ _ _ htokens, ← hindex, ← hbefore] at hsame
    have hnew : site.newText o ((blocks tokens).map Block.docstring) = text := by
      rw [Site.newText, if_pos hrewritten, htext]
      rfl
    rw [htext, ← hnew]
    exact congrArg Except.ok hsame

private theorem keeps_of_isSettled (h : IsSettled o tokens) (i : Nat) :
    revision o tokens i = .keep := by
  rcases revision_cases o tokens i with hkeep | ⟨site, hsite, -, -, -, -, ⟨-, hmem⟩ | ⟨hne, -⟩⟩
  · exact hkeep
  · rw [h.1] at hmem
    cases hmem
  · obtain ⟨hrewritten, hformat⟩ := newText_ne hne
    rw [h.2 site hsite hrewritten] at hformat
    exact absurd (Except.ok.inj hformat).symm hne

/-- A source is formatted to itself exactly if no blank line is dropped and every docstring is
formatted to itself. -/
theorem tryFormat_eq_self_iff (hcr : '\r' ∉ s) (hend : lastRow s = []) (h : tokenize s = .ok tokens)
    (hnever : NeverContinued .start 1 s.rawLines) :
    (tryFormat o s).result = .ok (.ok s) ↔ IsSettled o tokens := by
  obtain ⟨ps, closing, last, hahead, hkinds, hclosing⟩ := exists_ahead hcr hend h hnever
  have hsource : s = spell ps := hahead.source
  constructor
  · intro hself
    have hformat := exists_format_of_tryFormat hcr h hself
    have hrevised := result_tryFormat_revised hcr hend h hahead hkinds hclosing hformat
    have hρ := @revisesVisibly_revision o s tokens closing ps last hahead hkinds h
    rw [hself] at hrevised
    have heq : revisedText (revision o tokens) 0 ps = spell ps := by
      rw [← hsource]
      exact (Except.ok.inj (Except.ok.inj hrevised)).symm
    have hkeeps := keeps_of_revisedText_eq hρ hcr hend hahead heq
    have htokens : tokens = ps.map Piece.token ++ closing := hahead.tokens
    have hrest := hρ.keeps_closing htokens hkinds
    have hlength : tokens.length = ps.length + closing.length := by simp [htokens]
    refine isSettled_of_keeps h hformat ?_
    rw [hlength]
    refine hkeeps.append ?_
    rwa [List.length_nil, Nat.zero_add, ← List.length_map Piece.token]
  · intro hsettled
    have hformat : ∀ site ∈ sites tokens,
        site.IsRewritten o ((blocks tokens).map Block.docstring) →
          ∃ text, (Docstring.format o site.token.lineIndent site.token.text).result = .ok text :=
      fun site hsite hrewritten => ⟨_, hsettled.2 site hsite hrewritten⟩
    rw [result_tryFormat_revised hcr hend h hahead hkinds hclosing hformat,
      Keeps.revisedText fun j _ => keeps_of_isSettled hsettled _, ← hsource]

end Sources

end DocstringFormat.Source
