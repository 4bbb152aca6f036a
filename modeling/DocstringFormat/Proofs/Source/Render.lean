import DocstringFormat.Proofs.Source.Scan

/-!
What rendering recovers between two tokens.

After the pieces of a text the cursor is on the last row of that text, or before it with nothing
left to emit (`Cursor.At`, kept by `Cursor.At.advance`).  So the gap in front of the next token
comes out right, save that line breaks in it come out as the end of the line before
(`Cursor.At.gap_eq`).
-/

set_option autoImplicit false

namespace DocstringFormat.Source

/-- What the cursor emits before a token on a later row, besides the indentation. -/
def Cursor.credit (c : Cursor) : Text :=
  if isJoined c.line ∧ c.significant ≠ some .comment then joinedEnd c.line else []

structure Cursor.Within (c : Cursor) (x rest : Text) : Prop where
  place : c.place = Source.place x
  line : ∃ u, c.line = u ++ (lastRow x ++ firstRow rest) ∧
    (u = [] ∨ rest = [] ∨ ∃ q, (lastRow x).getLast? = some q ∧ IsQuote q)
  comment : x.getLast? = some '\\' → rest.head? = some '\n' → c.significant = some .comment
  code : lastRow x = [] → startsCode rest = true

structure Cursor.Past (c : Cursor) (x : Text) : Prop where
  row : c.place.row < (Source.place x).row
  start : lastRow x = []
  credit : c.credit = []

def Cursor.At (c : Cursor) (x rest : Text) : Prop :=
  c.Within x rest ∨ c.Past x

theorem Cursor.at_start (rest : Text) : Cursor.start.At [] rest :=
  Or.inr ⟨by simp [Cursor.start], rfl, by simp [Cursor.credit, Cursor.start, isJoined]⟩

section Gap

variable {c : Cursor} {t : Token} {x g rest : Text}

private theorem extract?_from_zero (a b : Text) : Text.extract? (a ++ b) 0 a.size = some a := by
  have h := Text.extract?_size [] a b
  simpa using h

private theorem gap_of_later (hrow : c.place.row < (place (x ++ g)).row)
    (hstands : t.Stands (x ++ g) rest) : c.gap t = c.credit ++ lastRow (x ++ g) := by
  have hline := hstands.line
  have hstart := hstands.start
  have hspacing : (if 0 < (lastRow (x ++ g)).size then
      (t.line.extract? 0 (lastRow (x ++ g)).size).getD [] else []) = lastRow (x ++ g) := by
    rw [hline, List.append_assoc, extract?_from_zero]
    split
    · rfl
    · rename_i hzero
      exact (Text.eq_nil_of_size (by omega)).symm
  simp only [Cursor.gap, hstart, hrow, if_true, place_column, hspacing, Cursor.credit, true_and]

private theorem gap_of_same (hplace : c.place = place x) (hg : '\n' ∉ g)
    (hstands : t.Stands (x ++ g) rest) : c.gap t = g := by
  have hline := hstands.line
  have hstart := hstands.start
  rw [lastRow_append_of_not_mem x hg, List.append_assoc, List.append_assoc] at hline
  rw [place_append_of_not_mem x hg] at hstart
  have hspacing : (if (lastRow x).size < (lastRow x).size + g.size then
      (t.line.extract? (lastRow x).size ((lastRow x).size + g.size)).getD [] else []) = g := by
    rw [hline, Text.extract?_size]
    split
    · rfl
    · exact (Text.eq_nil_of_size (by omega)).symm
  simpa [Cursor.gap, hstart, hplace] using hspacing

/-- What comes out before a token: the gap, save that its line breaks come out as the end of the
line before. -/
theorem Cursor.At.gap_eq (hc : c.At x (g ++ t.text ++ rest)) (hstands : t.Stands (x ++ g) rest) :
    c.gap t = (if '\n' ∈ g then c.credit else []) ++ lastRow g := by
  by_cases hg : '\n' ∈ g
  · rw [if_pos hg, ← lastRow_append_of_mem x hg]
    apply gap_of_later _ hstands
    have hpos := List.count_pos_iff.mpr hg
    rcases hc with hwithin | hpast
    · rw [hwithin.place]
      simp only [place_row, List.count_append]
      omega
    · have hrow := hpast.row
      simp only [place_row, List.count_append] at hrow ⊢
      omega
  · rw [if_neg hg, lastRow_of_not_mem hg, List.nil_append]
    rcases hc with hwithin | hpast
    · exact gap_of_same hwithin.place hg hstands
    · have hrow := hpast.row
      rw [gap_of_later _ hstands, hpast.credit, lastRow_append_of_not_mem x hg, hpast.start]
      · rfl
      · simp only [place_row, List.count_append] at hrow ⊢
        omega

end Gap

section Advance

variable {c : Cursor} {t : Token} {depth : Nat} {x g rest : Text}

theorem isJoined_iff {line : Text} (hcr : '\r' ∉ line) :
    isJoined line = true ↔ ['\\', '\n'] <:+ line := by
  have hnot : ¬ ['\\', '\r', '\n'] <:+ line := by
    rintro ⟨u, rfl⟩
    simp at hcr
  simp [isJoined, hnot]

private theorem getLast?_lastRow {y : Text} (hlast : y.getLast? ≠ some '\n') :
    (lastRow y).getLast? = y.getLast? := by
  by_cases hy : '\n' ∈ y
  · obtain ⟨u, hu⟩ := exists_eq_append_lastRow hy
    rcases List.eq_nil_or_concat' (lastRow y) with hnil | ⟨v, d, hd⟩
    · rw [hnil] at hu
      rw [hu] at hlast
      simp at hlast
    · rw [hd] at hu ⊢
      rw [hu, List.getLast?_concat, ← List.cons_append, ← List.append_assoc, List.getLast?_concat]
  · rw [lastRow_of_not_mem hy]

theorem firstRow_eq_nil {y : Text} (h : firstRow y = []) : y = [] := by
  cases y with
  | nil => rfl
  | cons c y =>
    rw [firstRow] at h
    split at h <;> cases h

private theorem within_of_stands (hstands : t.Stands (x ++ g) rest)
    (hlast : t.text.getLast? ≠ some '\n')
    (hrow : '\n' ∉ t.text ∨ rest = [] ∨ ∃ q, t.text.getLast? = some q ∧ IsQuote q)
    (hcomment : (x ++ g ++ t.text).getLast? = some '\\' → rest.head? = some '\n' →
      (c.advance t).significant = some .comment)
    (hcode : lastRow (x ++ g ++ t.text) = [] → startsCode rest = true) :
    (c.advance t).Within (x ++ g ++ t.text) rest := by
  refine ⟨?_, ?_, hcomment, hcode⟩
  · have hstop := hstands.stop
    rw [stopPlace, if_neg hlast] at hstop
    exact hstop
  · have hline := hstands.line
    rw [restOfRow, if_neg hlast] at hline
    cases hempty : t.line.isEmpty with
    | true =>
      rw [List.isEmpty_iff.mp hempty] at hline
      simp only [List.nil_eq, List.append_eq_nil_iff] at hline
      have hrest := firstRow_eq_nil hline.2
      refine ⟨c.line, ?_, Or.inr (Or.inl hrest)⟩
      simp [Cursor.advance, hempty, hline, hrest, firstRow]
    | false =>
      have hadvance : (c.advance t).line = t.line := by simp [Cursor.advance, hempty]
      rw [hadvance, hline]
      by_cases hmem : '\n' ∈ t.text
      · obtain ⟨v, hv⟩ := exists_eq_append_lastRow hmem
        have hrest := hrow.resolve_left fun h => h hmem
        refine ⟨lastRow (x ++ g) ++ (v ++ ['\n']), ?_, Or.inr ?_⟩
        · rw [lastRow_append_of_mem _ hmem]
          conv_lhs => rw [hv]
          simp
        · rw [lastRow_append_of_mem _ hmem, getLast?_lastRow hlast]
          exact hrest
      · refine ⟨[], ?_, Or.inl rfl⟩
        rw [lastRow_append_of_not_mem _ hmem, List.nil_append]

private theorem within_of_plain (hstands : t.Stands (x ++ g) rest) (hne : t.text ≠ [])
    (hmem : '\n' ∉ t.text)
    (hcomment : t.text.getLast? = some '\\' → rest.head? = some '\n' →
      (c.advance t).significant = some .comment) :
    (c.advance t).Within (x ++ g ++ t.text) rest := by
  apply within_of_stands hstands
  · exact fun h => hmem (List.mem_of_getLast? h)
  · exact Or.inl hmem
  · rwa [List.getLast?_append_of_ne_nil _ hne]
  · intro hrow
    rw [lastRow_append_of_not_mem _ hmem] at hrow
    exact absurd (List.append_eq_nil_iff.mp hrow).2 hne

private theorem past_of_stands (hstands : t.Stands (x ++ g) rest)
    (hlast : t.text.getLast? = some '\n') (hcredit : (c.advance t).credit = []) :
    (c.advance t).Past (x ++ g ++ t.text) := by
  obtain ⟨v, hv⟩ := List.getLast?_eq_some_iff.mp hlast
  refine ⟨?_, ?_, hcredit⟩
  · have hstop := hstands.stop
    rw [hv, stopPlace_newline] at hstop
    rw [hv]
    simp only [Cursor.advance, hstop, place_row, List.count_append]
    simp
  · rw [hv, ← List.append_assoc, lastRow_append_newline]
    rfl

private theorem at_of_break (hc : c.At x (g ++ t.text ++ rest)) (hgap : isGap g = true)
    (hstands : t.Stands (x ++ g) rest) (hbreak : IsBreak (lastRow (x ++ g)) t.text rest)
    (hlayout : isLayout t.kind = true) (hcr : '\r' ∉ x ++ g ++ t.text ++ rest) :
    (c.advance t).At (x ++ g ++ t.text) rest := by
  rcases hbreak with htext | ⟨hrow, htext, hrest⟩ | hhead
  · right
    apply past_of_stands hstands (by rw [htext]; rfl)
    have hline : t.line = lastRow (x ++ g) ++ ['\n'] := by
      rw [hstands.line, htext]
      simp [restOfRow]
    have hadvance : (c.advance t).line = lastRow (x ++ g) ++ ['\n'] := by
      simp [Cursor.advance, hline]
    have hsignificant : (c.advance t).significant = c.significant := by
      simp [Cursor.advance, hlayout]
    rw [Cursor.credit, hadvance, hsignificant, if_neg]
    rintro ⟨hjoined, hcomment⟩
    -- A backslash before the line feed ends a token, and that token is a comment.
    have hback : (lastRow (x ++ g)).getLast? = some '\\' := by
      rw [isJoined_iff] at hjoined
      · obtain ⟨u, hu⟩ := hjoined
        have hinit : (u ++ ['\\']) ++ ['\n'] = lastRow (x ++ g) ++ ['\n'] := by simpa using hu
        rw [← (List.append_inj' hinit rfl).1]
        simp
      · intro hmem
        apply hcr
        have hrow : '\r' ∈ lastRow (x ++ g) := by simpa using hmem
        have hin := (lastRow_isSuffix (x ++ g)).subset hrow
        exact List.mem_append_left rest (List.mem_append_left t.text hin)
    have hlast : (x ++ g).getLast? = some '\\' := by
      rw [← getLast?_lastRow, hback]
      intro hnewline
      obtain ⟨u, hu⟩ := List.getLast?_eq_some_iff.mp hnewline
      rw [hu, lastRow_append_newline] at hback
      cases hback
    have hg : g = [] := by
      by_contra hne
      rw [List.getLast?_append_of_ne_nil x hne] at hlast
      rcases getLast?_gap hgap hlast with hspace | hnewline
      · exact isSpacing_ne_backslash hspace rfl
      · cases hnewline
    subst hg
    rw [List.append_nil] at hlast hback
    rcases hc with hwithin | hpast
    · exact hcomment (hwithin.comment hlast (by rw [htext]; rfl))
    · rw [hpast.start] at hback
      cases hback
  · left
    apply within_of_stands hstands
    · simp [htext]
    · simp [htext]
    · simp [hrest]
    · rw [htext, List.append_nil]
      exact fun hnil => absurd hnil hrow
  · exfalso
    apply hcr
    have hmem := List.mem_of_head? hhead
    simp [hmem]

theorem Cursor.At.advance (hc : c.At x (g ++ t.text ++ rest)) (hfits : Piece.Fits ⟨g, t⟩ depth x rest)
    (hcr : '\r' ∉ x ++ g ++ t.text ++ rest) : (c.advance t).At (x ++ g ++ t.text) rest := by
  have hstands : t.Stands (x ++ g) rest := hfits.stands
  have hlawful : t.Lawful depth x g rest := hfits.lawful
  unfold Token.Lawful at hlawful
  split at hlawful
  · rename_i hkind
    exact at_of_break hc hfits.gap hstands hlawful.2 (by simp [isLayout, hkind]) hcr
  · rename_i hkind
    exact at_of_break hc hfits.gap hstands hlawful.1 (by simp [isLayout, hkind]) hcr
  · obtain ⟨hne, hspacing, -⟩ := hlawful
    left
    have hmem : '\n' ∉ t.text := fun h => isSpacing_ne_newline (hspacing _ h) rfl
    apply within_of_plain hstands hne hmem
    intro hback
    have hspace := hspacing _ (List.mem_of_getLast? hback)
    exact absurd rfl (isSpacing_ne_backslash hspace)
  · obtain ⟨htext, hcode⟩ := hlawful
    left
    apply within_of_stands hstands
    · simp [htext]
    · simp [htext]
    · intro _ hhead
      obtain ⟨r, rfl⟩ := List.head?_eq_some_iff.mp hhead
      exact absurd hcode (by simp [startsCode, isCodeless])
    · exact fun _ => hcode
  · obtain ⟨hne, hlexical⟩ := hlawful
    split at hlexical
    · rename_i hkind
      left
      apply within_of_plain hstands hne hlexical.2
      intro _ _
      simp [Cursor.advance, hkind, isLayout]
    · obtain ⟨q, hq, hquote⟩ := hlexical
      have hlast : t.text.getLast? ≠ some '\n' := by
        rw [hq]
        simpa using hquote.ne_newline
      left
      apply within_of_stands hstands hlast
      · exact Or.inr (Or.inr ⟨q, hq, hquote⟩)
      · intro hback
        rw [List.getLast?_append_of_ne_nil _ hne, hq] at hback
        exact absurd (Option.some.inj hback) hquote.ne_backslash
      · exact fun hrow => absurd hrow (lastRow_append_ne_nil _ hne hlast)
    · rcases hlexical with ⟨hmem, hback⟩ | ⟨hlast, hjoined, hlen⟩ | ⟨hlast, hrest⟩
      · left
        apply within_of_plain hstands hne hmem
        intro hlast hhead
        exact absurd hhead (hback hlast)
      · right
        apply past_of_stands hstands hlast
        have hline : t.line = lastRow (x ++ g) ++ t.text := by
          simp [hstands.line, restOfRow, hlast]
        have hadvance : (c.advance t).line = lastRow (x ++ g) ++ t.text := by
          simp [Cursor.advance, hline, hne]
        rw [Cursor.credit, hadvance, if_neg]
        rintro ⟨hcut, -⟩
        apply hjoined
        rw [isJoined_iff] at hcut
        · exact List.suffix_of_suffix_length_le hcut (List.suffix_append _ _) hlen
        · intro hmem
          apply hcr
          rcases List.mem_append.mp hmem with hmem | hmem
          · have hin := (lastRow_isSuffix (x ++ g)).subset hmem
            exact List.mem_append_left rest (List.mem_append_left t.text hin)
          · exact List.mem_append_left rest (List.mem_append_right (x ++ g) hmem)
      · left
        apply within_of_stands hstands hlast
        · exact Or.inr (Or.inl hrest)
        · simp [hrest]
        · exact fun hrow => absurd hrow (lastRow_append_ne_nil _ hne hlast)
    · left
      apply within_of_plain hstands hne hlexical.1
      exact fun hback => absurd hback hlexical.2
    · left
      apply within_of_plain hstands hne hlexical.1
      exact fun hback => absurd hback hlexical.2
    · left
      apply within_of_plain hstands hne hlexical.1
      exact fun hback => absurd hback hlexical.2
    · exact hlexical.elim

end Advance

section Tokens

/-- The cursor after tokens. -/
def Cursor.after (c : Cursor) (ts : List Token) : Cursor :=
  ts.foldl Cursor.advance c

@[simp] theorem Cursor.after_nil (c : Cursor) : c.after [] = c := rfl

@[simp] theorem Cursor.after_cons (c : Cursor) (t : Token) (ts : List Token) :
    c.after (t :: ts) = (c.advance t).after ts := rfl

theorem Cursor.after_append (c : Cursor) (ts us : List Token) :
    c.after (ts ++ us) = (c.after ts).after us :=
  List.foldl_append

theorem Token.Lawful.kind_ne_encoding {t : Token} {depth : Nat} {x gap rest : Text}
    (h : t.Lawful depth x gap rest) : t.kind ≠ .encoding := by
  intro hkind
  simp [Token.Lawful, Lexical, hkind] at h

theorem Laid.kind_ne_encoding {depth last : Nat} {x rest : Text} {ps : List Piece}
    (h : Laid depth x ps rest last) : ∀ p ∈ ps, p.token.kind ≠ .encoding := by
  induction h with
  | nil => simp
  | cons hfits _ ih =>
    intro p hp
    rcases List.mem_cons.mp hp with rfl | hp
    · exact hfits.lawful.kind_ne_encoding
    · exact ih p hp

theorem renderFrom_cons {t : Token} (ht : t.kind ≠ .encoding) (c : Cursor) (ts : List Token) :
    renderFrom c (t :: ts) = c.gap t ++ t.text ++ renderFrom (c.advance t) ts := by
  rw [renderFrom, if_neg ht]

theorem renderFrom_append {ts : List Token} (hts : ∀ t ∈ ts, t.kind ≠ .encoding) (c : Cursor)
    (us : List Token) : renderFrom c (ts ++ us) = renderFrom c ts ++ renderFrom (c.after ts) us := by
  induction ts generalizing c with
  | nil => rfl
  | cons t ts ih =>
    have ht := hts t (by simp)
    have hrest := ih (fun u hu => hts u (List.mem_cons_of_mem t hu)) (c.advance t)
    rw [List.cons_append, renderFrom_cons ht, renderFrom_cons ht, hrest, Cursor.after_cons]
    simp only [List.append_assoc]

theorem Cursor.At.step {c : Cursor} {depth : Nat} {x rest : Text} {p : Piece} {ps : List Piece}
    (hc : c.At x (spell (p :: ps) ++ rest)) (hfits : p.Fits depth x (spell ps ++ rest))
    (hcr : '\r' ∉ x ++ spell (p :: ps) ++ rest) :
    c.At x (p.gap ++ p.token.text ++ (spell ps ++ rest)) ∧
      (c.advance p.token).At (x ++ p.text) (spell ps ++ rest) ∧
      '\r' ∉ x ++ p.text ++ spell ps ++ rest := by
  have hsplit : x ++ spell (p :: ps) ++ rest = x ++ p.gap ++ p.token.text ++ (spell ps ++ rest) := by
    simp only [spell_cons, List.append_assoc]
  rw [spell_cons, List.append_assoc] at hc
  rw [hsplit] at hcr
  have hstep := hc.advance hfits hcr
  rw [List.append_assoc x] at hstep hcr
  refine ⟨hc, hstep, ?_⟩
  rw [List.append_assoc (x ++ p.text)]
  exact hcr

theorem Cursor.At.after {c : Cursor} {depth last : Nat} {x rest : Text} {ps : List Piece}
    (hc : c.At x (spell ps ++ rest)) (hlaid : Laid depth x ps rest last)
    (hcr : '\r' ∉ x ++ spell ps ++ rest) :
    (c.after (ps.map Piece.token)).At (x ++ spell ps) rest := by
  induction ps generalizing c depth x with
  | nil => simpa using hc
  | cons p ps ih =>
    cases hlaid with
    | cons hfits hrest =>
      obtain ⟨-, hstep, hcr'⟩ := hc.step hfits hcr
      have hrun := ih hstep hrest hcr'
      rw [List.append_assoc x] at hrun
      exact hrun

end Tokens

end DocstringFormat.Source
