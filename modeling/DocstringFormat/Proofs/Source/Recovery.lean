import DocstringFormat.Proofs.Source.Render

/-!
Which gaps between tokens rendering recovers.

A gap within a row always comes out as it is (`kept_of_withinRow`).  A gap with a line break comes
out as the end of the line that the last token stands on, so it comes out as it is only if it is
that end (`recoverable_iff`).  Gaps never come out with more line feeds than they have, so a text
that comes out right comes out right gap by gap (`kept_of_renderFrom`).
-/

set_option autoImplicit false

namespace DocstringFormat.Source

section Joints

/-- The characters that the end of a joined line is made of. -/
def jointChars : List Char := [' ', '\t', '\r', '\n', '\\']

private theorem exists_joinedEnd (line : Text) :
    ∃ a, line = a ++ joinedEnd line ∧ (∀ c, a.getLast? = some c → c ∉ jointChars) ∧
      ∀ c ∈ joinedEnd line, c ∈ jointChars := by
  refine ⟨Text.dropEndWhile (fun c => c ∈ jointChars) line, ?_, ?_, ?_⟩
  · exact (Text.dropEndWhile_append _ line).symm
  · intro c hc
    have h := Text.getLast?_dropEndWhile hc
    simpa using h
  · intro c hc
    have hall : (line.reverse.takeWhile fun c => decide (c ∈ jointChars)).all
        (fun c => decide (c ∈ jointChars)) = true := List.all_takeWhile
    have h := List.all_eq_true.mp hall c (List.mem_reverse.mp hc)
    simpa using h

private theorem joinedEnd_append {a b : Text} (ha : ∀ c, a.getLast? = some c → c ∉ jointChars)
    (hb : ∀ c ∈ b, c ∈ jointChars) : joinedEnd (a ++ b) = b := by
  have hall : ∀ c ∈ b.reverse, decide (c ∈ [' ', '\t', '\r', '\n', '\\']) = true := by
    intro c hc
    have h := hb c (List.mem_reverse.mp hc)
    simpa [jointChars] using h
  have hstop : a.reverse.takeWhile (fun c => decide (c ∈ [' ', '\t', '\r', '\n', '\\'])) = [] := by
    rcases List.eq_nil_or_concat' a with rfl | ⟨u, c, rfl⟩
    · rfl
    · have h := ha c (by simp)
      rw [List.reverse_append, List.reverse_singleton, List.singleton_append,
        List.takeWhile_cons_of_neg]
      simpa [jointChars] using h
  rw [joinedEnd, List.reverse_append, List.takeWhile_append_of_pos hall, hstop]
  simp

private theorem firstRow_cases (y : Text) :
    ('\n' ∉ firstRow y) ∨ ∃ w, firstRow y = w ++ ['\n'] ∧ '\n' ∉ w := by
  rcases Text.newline_split y with hy | ⟨b, t, rfl, hb⟩
  · left
    have h := firstRow_append_of_not_mem hy []
    rw [List.append_nil] at h
    rw [h]
    simpa [firstRow] using hy
  · right
    refine ⟨b, ?_, hb⟩
    rw [firstRow_append_of_not_mem hb]
    rfl

private theorem Cursor.Within.joinedEnd_isSuffix {c : Cursor} {x rest : Text} (h : c.Within x rest)
    (hrest : rest ≠ []) : joinedEnd c.line <:+ lastRow x ++ firstRow rest := by
  obtain ⟨u, hline, hu⟩ := h.line
  obtain ⟨a, ha, hlast, hall⟩ := exists_joinedEnd c.line
  rcases List.append_eq_append_iff.mp (hline.symm.trans ha) with ⟨v, hv, hm⟩ | ⟨v, hv, hend⟩
  · exact ⟨v, hm.symm⟩
  · -- The run would reach back beyond the row, over a quote or nothing at all.
    rcases hu with rfl | hnil | ⟨q, hq, hquote⟩
    · have hvnil : v = [] := (List.append_eq_nil_iff.mp hv.symm).2
      rw [hend, hvnil]
      simp
    · exact absurd hnil hrest
    · exfalso
      have hmem : q ∈ joinedEnd c.line := by
        rw [hend]
        have := List.mem_of_getLast? hq
        simp [this]
      have hjoint := hall q hmem
      rcases hquote with rfl | rfl
      · simp [jointChars] at hjoint
      · simp [jointChars] at hjoint

theorem Cursor.getLast?_credit (c : Cursor) : c.credit = [] ∨ c.credit.getLast? = some '\n' := by
  by_cases hcredit : isJoined c.line = true ∧ c.significant ≠ some .comment
  · rw [Cursor.credit, if_pos hcredit]
    have hnewline : c.line.getLast? = some '\n' := by
      have hjoined := hcredit.1
      simp only [isJoined, Bool.or_eq_true, List.isSuffixOf_iff_suffix] at hjoined
      rcases hjoined with ⟨w, hw⟩ | ⟨w, hw⟩ <;> simp [← hw]
    obtain ⟨a, ha, hlast, -⟩ := exists_joinedEnd c.line
    by_cases hnil : joinedEnd c.line = []
    · exact Or.inl hnil
    · right
      rw [← List.getLast?_append_of_ne_nil a hnil, ← ha, hnewline]
  · left
    rw [Cursor.credit, if_neg hcredit]

theorem Cursor.Within.credit_cases {c : Cursor} {x rest : Text} (h : c.Within x rest)
    (hrest : rest ≠ []) : c.credit = [] ∨ ∃ v, c.credit = v ++ ['\n'] ∧ '\n' ∉ v := by
  rcases c.getLast?_credit with hnil | hlast
  · exact Or.inl hnil
  · right
    obtain ⟨v, hv⟩ := List.getLast?_eq_some_iff.mp hlast
    refine ⟨v, hv, ?_⟩
    have hsuffix : c.credit <:+ lastRow x ++ firstRow rest := by
      rw [Cursor.credit]
      split
      · exact h.joinedEnd_isSuffix hrest
      · exact List.nil_suffix
    rw [hv] at hsuffix
    obtain ⟨z, hz⟩ := hsuffix
    -- The row has one line feed at most, at its end.
    rcases firstRow_cases rest with hmem | ⟨r, hr, hmem⟩
    · exfalso
      have hin : '\n' ∈ lastRow x ++ firstRow rest := by
        rw [← hz]
        simp
      rcases List.mem_append.mp hin with hin | hin
      · exact newline_not_mem_lastRow x hin
      · exact hmem hin
    · rw [hr, ← List.append_assoc, ← List.append_assoc] at hz
      have hinit := (List.append_inj' hz rfl).1
      intro hin
      have hrow : '\n' ∈ lastRow x ++ r := by
        rw [← hinit]
        exact List.mem_append_right z hin
      rcases List.mem_append.mp hrow with hin | hin
      · exact newline_not_mem_lastRow x hin
      · exact hmem hin

end Joints

section Gaps

variable {c : Cursor} {t : Token} {x g rest : Text}

theorem Cursor.At.credit_cases (hc : c.At x rest) (hrest : rest ≠ []) :
    c.credit = [] ∨ ∃ v, c.credit = v ++ ['\n'] ∧ '\n' ∉ v := by
  rcases hc with hwithin | hpast
  · exact hwithin.credit_cases hrest
  · exact Or.inl hpast.credit

private theorem Cursor.At.count_gap_le (hc : c.At x (g ++ t.text ++ rest))
    (hstands : t.Stands (x ++ g) rest) : (c.gap t).count '\n' ≤ g.count '\n' := by
  have hrow := List.count_eq_zero_of_not_mem (newline_not_mem_lastRow g)
  rw [hc.gap_eq hstands, List.count_append, hrow]
  by_cases hg : '\n' ∈ g
  · have hpos := List.count_pos_iff.mpr hg
    have hne : g ++ t.text ++ rest ≠ [] := by
      simp [List.ne_nil_of_mem hg]
    rw [if_pos hg]
    rcases hc.credit_cases hne with hcredit | ⟨v, hcredit, hv⟩
    · rw [hcredit]
      simp
    · rw [hcredit, List.count_append, List.count_eq_zero_of_not_mem hv]
      simp only [List.count_singleton_self]
      omega
  · simp [hg]

private theorem Cursor.At.gap_eq_of_count {a b : Text} (hc : c.At x (g ++ t.text ++ rest))
    (hstands : t.Stands (x ++ g) rest) (hcount : g.count '\n' ≤ (c.gap t).count '\n')
    (heq : c.gap t ++ a = g ++ b) : c.gap t = g := by
  have hgap := hc.gap_eq hstands
  by_cases hg : '\n' ∈ g
  · obtain ⟨w, hw⟩ := exists_eq_append_lastRow hg
    have hrow := List.count_eq_zero_of_not_mem (newline_not_mem_lastRow g)
    have hpos := List.count_pos_iff.mpr hg
    have hne : g ++ t.text ++ rest ≠ [] := by
      simp [List.ne_nil_of_mem hg]
    rw [if_pos hg] at hgap
    rw [hgap, List.count_append, hrow] at hcount
    rcases hc.credit_cases hne with hcredit | ⟨v, hcredit, hv⟩
    · rw [hcredit] at hcount
      simp only [List.count_nil] at hcount
      omega
    · rw [hcredit, List.count_append, List.count_eq_zero_of_not_mem hv] at hcount
      have hwcount : w.count '\n' = 0 := by
        have htotal := congrArg (List.count '\n') hw
        rw [List.count_append, List.count_cons_self, hrow] at htotal
        simp only [List.count_singleton_self] at hcount
        omega
      have hsame : v = w := by
        have hsplit : v ++ '\n' :: (lastRow g ++ a) = w ++ '\n' :: (lastRow g ++ b) := by
          calc v ++ '\n' :: (lastRow g ++ a) = c.gap t ++ a := by
                rw [hgap, hcredit]
                simp
            _ = g ++ b := heq
            _ = w ++ '\n' :: (lastRow g ++ b) := by
                conv_lhs => rw [hw]
                simp
        rcases Text.cut_at_newline hv hsplit with ⟨hwv, -⟩ | ⟨u, hlonger, -⟩
        · exact hwv.symm
        · rw [hlonger] at hwcount
          simp at hwcount
      rw [hgap, hcredit, hsame]
      conv_rhs => rw [hw]
      simp
  · rw [hgap, if_neg hg, lastRow_of_not_mem hg, List.nil_append]

end Gaps

section Recovery

def Cursor.Recovers (c : Cursor) (g : Text) : Prop :=
  (if '\n' ∈ g then c.credit else []) ++ lastRow g = g

variable {c : Cursor} {g h : Text}

theorem Cursor.recovers_of_not_mem (hg : '\n' ∉ g) : c.Recovers g := by
  rw [Cursor.Recovers, if_neg hg, lastRow_of_not_mem hg, List.nil_append]

theorem Cursor.recovers_append_iff (hh : '\n' ∉ h) : c.Recovers (g ++ h) ↔ c.Recovers g := by
  have hmem : '\n' ∈ g ++ h ↔ '\n' ∈ g := by simp [hh]
  simp only [Cursor.Recovers, hmem, lastRow_append_of_not_mem g hh, ← List.append_assoc,
    List.append_left_inj]

private theorem Cursor.recovers_newline_iff :
    c.Recovers (g ++ ['\n']) ↔ c.credit = g ++ ['\n'] := by
  have hrow : lastRow (g ++ ['\n']) = [] := lastRow_append_newline g []
  rw [Cursor.Recovers, if_pos (by simp), hrow, List.append_nil]

end Recovery

section Pieces

def Kept (c : Cursor) : List Piece → Prop
  | [] => True
  | p :: ps => c.gap p.token = p.gap ∧ Kept (c.advance p.token) ps

theorem kept_append {c : Cursor} {ps qs : List Piece} :
    Kept c (ps ++ qs) ↔ Kept c ps ∧ Kept (c.after (ps.map Piece.token)) qs := by
  induction ps generalizing c with
  | nil => simp [Kept]
  | cons p ps ih => simp [Kept, ih, and_assoc]

theorem renderFrom_of_kept {c : Cursor} {ps : List Piece}
    (hkinds : ∀ p ∈ ps, p.token.kind ≠ .encoding) (h : Kept c ps) :
    renderFrom c (ps.map Piece.token) = spell ps := by
  induction ps generalizing c with
  | nil => rfl
  | cons p ps ih =>
    rw [List.map_cons, renderFrom_cons (hkinds p (by simp)), h.1, spell_cons,
      ih (fun q hq => hkinds q (List.mem_cons_of_mem p hq)) h.2]

variable {c : Cursor} {depth last : Nat} {x rest : Text} {ps : List Piece}

private theorem count_renderFrom_le (hc : c.At x (spell ps ++ rest))
    (hlaid : Laid depth x ps rest last)
    (hcr : '\r' ∉ x ++ spell ps ++ rest) :
    (renderFrom c (ps.map Piece.token)).count '\n' ≤ (spell ps).count '\n' := by
  induction ps generalizing c depth x with
  | nil => simp [renderFrom]
  | cons p ps ih =>
    cases hlaid with
    | cons hfits hrest =>
      obtain ⟨hat, hstep, hcr'⟩ := hc.step hfits hcr
      have hgap := hat.count_gap_le hfits.stands
      have hmore := ih hstep hrest hcr'
      rw [List.map_cons, renderFrom_cons hfits.lawful.kind_ne_encoding, spell_cons]
      simp only [List.count_append]
      omega

/-- If what comes out is what the pieces spell, then every gap comes out as it is. -/
theorem kept_of_renderFrom {w v : Text} (hc : c.At x (spell ps ++ rest))
    (hlaid : Laid depth x ps rest last) (hcr : '\r' ∉ x ++ spell ps ++ rest)
    (heq : renderFrom c (ps.map Piece.token) ++ w = spell ps ++ v)
    (hcount : w.count '\n' ≤ v.count '\n') : Kept c ps ∧ w = v := by
  induction ps generalizing c depth x with
  | nil => exact ⟨True.intro, by simpa [renderFrom] using heq⟩
  | cons p ps ih =>
    cases hlaid with
    | cons hfits hrest =>
      -- No gap gains line feeds, so none can lose any: the first gap has all of its own.
      obtain ⟨hat, hstep, hcr'⟩ := hc.step hfits hcr
      have hmore := count_renderFrom_le hstep hrest hcr'
      rw [List.map_cons, renderFrom_cons hfits.lawful.kind_ne_encoding, spell_cons] at heq
      have htotal := congrArg (List.count '\n') heq
      simp only [List.count_append] at htotal
      have hsplit : c.gap p.token ++ (p.token.text ++
          (renderFrom (c.advance p.token) (ps.map Piece.token) ++ w)) =
          p.gap ++ (p.token.text ++ (spell ps ++ v)) := by
        simpa only [List.append_assoc] using heq
      have hgap := hat.gap_eq_of_count hfits.stands (by omega) hsplit
      rw [hgap] at hsplit
      have hafter := List.append_cancel_left (List.append_cancel_left hsplit)
      obtain ⟨hkept, hwv⟩ := ih hstep hrest hcr' hafter
      exact ⟨⟨hgap, hkept⟩, hwv⟩

private theorem kept_of_newline_free (hc : c.At x (spell ps ++ rest))
    (hlaid : Laid depth x ps rest last)
    (hcr : '\r' ∉ x ++ spell ps ++ rest) (hgaps : ∀ p ∈ ps, '\n' ∉ p.gap) : Kept c ps := by
  induction ps generalizing c depth x with
  | nil => exact True.intro
  | cons p ps ih =>
    cases hlaid with
    | cons hfits hrest =>
      obtain ⟨hat, hstep, hcr'⟩ := hc.step hfits hcr
      have hgap : c.Recovers p.gap := Cursor.recovers_of_not_mem (hgaps p (by simp))
      refine ⟨?_, ih hstep hrest hcr' fun q hq => hgaps q (List.mem_cons_of_mem p hq)⟩
      rw [hat.gap_eq hfits.stands]
      exact hgap

/-- The pieces of a row come out as they are if the gap before them does. -/
theorem kept_of_withinRow {gap tail : Text} {continued : Bool} (hc : c.At x (spell ps ++ rest))
    (hlaid : Laid depth x ps rest last) (hcr : '\r' ∉ x ++ spell ps ++ rest)
    (hrow : WithinRow gap ps continued tail) (hgap : c.Recovers gap) :
    Kept c ps ∧ (continued = false → (c.after (ps.map Piece.token)).Recovers tail) := by
  obtain ⟨h, hfirst, hmem⟩ := hrow.first
  cases ps with
  | nil =>
    refine ⟨True.intro, ?_⟩
    rintro rfl
    have hh : '\n' ∉ h := fun hin => Bool.false_ne_true (hmem hin).2
    change tail = gap ++ h at hfirst
    rw [hfirst]
    exact (Cursor.recovers_append_iff hh).mpr hgap
  | cons p ps =>
    have hh : '\n' ∉ h := fun hin => by cases (hmem hin).1
    change p.gap = gap ++ h at hfirst
    cases hlaid with
    | cons hfits hrest =>
      obtain ⟨hat, hstep, hcr'⟩ := hc.step hfits hcr
      refine ⟨⟨?_, kept_of_newline_free hstep hrest hcr' hrow.later⟩, ?_⟩
      · have hrecovers : c.Recovers p.gap := by
          rw [hfirst]
          exact (Cursor.recovers_append_iff hh).mpr hgap
        rw [hat.gap_eq hfits.stands]
        exact hrecovers
      · intro hcontinued
        exact Cursor.recovers_of_not_mem (hrow.left (by simp) hcontinued)

end Pieces

section Continuations

def lastSignificant (tokens : List Token) : Option TokenKind :=
  ((tokens.filter fun t => !isLayout t.kind).getLast?).map Token.kind

/-- A continued line can be recovered from the tokens up to its end: the last token stands on the
line, no blank or backslash ends it, and only spaces and tabs stand between it and the backslash.
After a comment nothing is recovered. -/
def Recoverable (tokens : List Token) (row : Nat) (line : Text) : Prop :=
  ∃ last head blanks, tokens.getLast? = some last ∧ last.stop = ⟨row, head.size⟩ ∧
    line = head ++ blanks ++ ['\\', '\n'] ∧ (∀ c ∈ blanks, c = ' ' ∨ c = '\t') ∧
    (∀ c, head.getLast? = some c → c ∉ [' ', '\t', '\\']) ∧ lastSignificant tokens ≠ some .comment

private theorem significant_after (tokens : List Token) :
    (Cursor.start.after tokens).significant = lastSignificant tokens := by
  induction tokens using List.reverseRecOn with
  | nil => rfl
  | append_singleton tokens t ih =>
    rw [Cursor.after_append, Cursor.after_cons, Cursor.after_nil, Cursor.advance, lastSignificant,
      List.filter_append]
    cases hlayout : isLayout t.kind with
    | true => simp [hlayout, ih, lastSignificant]
    | false => simp [hlayout]

theorem place_after (tokens : List Token) {t : Token} (h : tokens.getLast? = some t) :
    (Cursor.start.after tokens).place = t.stop := by
  obtain ⟨ts, rfl⟩ := List.getLast?_eq_some_iff.mp h
  rw [Cursor.after_append]
  rfl

private theorem spacing_of_gap_joint {b : Text} (hb : '\n' ∉ b)
    (h : isGap (b ++ ['\\', '\n']) = true) :
    ∀ c ∈ b, isSpacing c = true := by
  induction b with
  | nil => simp
  | cons c b ih =>
    have hrest : '\n' ∉ b := fun hin => hb (List.mem_cons_of_mem c hin)
    rw [List.cons_append] at h
    unfold isGap at h
    split at h
    · simp_all
    · rename_i heq
      have htail := (List.cons.inj heq).2
      cases b with
      | nil => cases htail
      | cons d b => simp [(List.cons.inj htail).1] at hrest
    · rename_i heq
      have htail := (List.cons.inj heq).2
      cases b with
      | nil => cases htail
      | cons d b =>
        have htail' := (List.cons.inj htail).2
        cases b with
        | nil => cases htail'
        | cons e b => simp [(List.cons.inj htail').1] at hrest
    · rename_i heq
      obtain ⟨rfl, rfl⟩ := List.cons.inj heq
      rw [Bool.and_eq_true] at h
      intro d hd
      rcases List.mem_cons.mp hd with rfl | hd
      · exact h.1
      · exact ih hrest h.2 d hd

variable {tokens : List Token} {k : Nat} {before line x tail rest : Text}

private theorem exists_head (hbefore : lastRow before = []) (hcount : before.count '\n' = k)
    (hread : before ++ line = x ++ tail) (hx : x.count '\n' = k) :
    ∃ head, x = before ++ head ∧ line = head ++ tail ∧ '\n' ∉ head := by
  rcases List.append_eq_append_iff.mp hread with ⟨y, hy, hline⟩ | ⟨y, hy, htail⟩
  · refine ⟨y, hy, hline, ?_⟩
    rw [hy, List.count_append] at hx
    exact List.count_eq_zero.mp (by omega)
  · -- A line feed ends `before`, so nothing of it can be left over.
    rw [hy, List.count_append] at hcount
    have hmem : '\n' ∉ y := List.count_eq_zero.mp (by omega)
    rw [hy, lastRow_append_of_not_mem x hmem, List.append_eq_nil_iff] at hbefore
    obtain ⟨-, rfl⟩ := hbefore
    exact ⟨[], by simpa using hy.symm, by simpa using htail.symm, by simp⟩

private theorem credit_eq_iff {c : Cursor} {b : Text} (hb : '\n' ∉ b)
    (hwithin : c.Within x (b ++ ['\\', '\n'] ++ rest)) :
    c.credit = b ++ ['\\', '\n'] ↔
      c.significant ≠ some .comment ∧ (∀ d ∈ b, d ∈ jointChars) ∧
        ∀ d, (lastRow x).getLast? = some d → d ∉ jointChars := by
  obtain ⟨u, hline, hu⟩ := hwithin.line
  have hrow : firstRow (b ++ ['\\', '\n'] ++ rest) = b ++ ['\\', '\n'] := by
    rw [List.append_assoc, firstRow_append_of_not_mem hb]
    rfl
  rw [hrow, ← List.append_assoc] at hline
  have hjoined : isJoined c.line = true := by
    have hsuffix : ['\\', '\n'] <:+ c.line := by
      rw [hline, ← List.append_assoc]
      exact List.suffix_append _ _
    simp [isJoined, hsuffix]
  simp only [Cursor.credit, hjoined, true_and]
  constructor
  · intro hcredit
    split at hcredit
    · rename_i hsignificant
      obtain ⟨a, ha, hlast, hall⟩ := exists_joinedEnd c.line
      rw [hcredit] at ha hall
      refine ⟨hsignificant, fun d hd => hall d (by simp [hd]), ?_⟩
      intro d hd
      have hne : lastRow x ≠ [] := by
        intro hnil
        rw [hnil] at hd
        cases hd
      have hua : u ++ lastRow x = a := List.append_cancel_right (hline.symm.trans ha)
      apply hlast d
      rw [← hua, List.getLast?_append_of_ne_nil u hne, hd]
    · simp at hcredit
  · rintro ⟨hsignificant, hall, hlast⟩
    rw [if_pos hsignificant, hline]
    apply joinedEnd_append
    · intro d hd
      by_cases hnil : lastRow x = []
      · rcases hu with rfl | hrest | ⟨q, hq, -⟩
        · rw [hnil] at hd
          cases hd
        · simp at hrest
        · rw [hnil] at hq
          cases hq
      · rw [List.getLast?_append_of_ne_nil u hnil] at hd
        exact hlast d hd
    · intro d hd
      rcases List.mem_append.mp hd with hd | hd
      · exact hall d hd
      · simp only [List.mem_cons, List.not_mem_nil, or_false] at hd
        rcases hd with rfl | rfl <;> decide

variable {b : Text}

private theorem count_before (hread : before ++ line = x ++ (b ++ ['\\', '\n']))
    (hrow : IsRow line rest) (hne : line ≠ []) :
    before.count '\n' = x.count '\n' + b.count '\n' := by
  have hlast : line.getLast? = some '\n' := by
    rw [← List.getLast?_append_of_ne_nil before hne, hread]
    simp
  have hline : line.count '\n' = 1 := by
    rcases hrow with ⟨hmem, -⟩ | ⟨u, rfl, hu⟩
    · exact absurd (List.mem_of_getLast? hlast) hmem
    · simp [List.count_eq_zero_of_not_mem hu]
  have htotal : before.count '\n' + line.count '\n' = x.count '\n' + (b.count '\n' + 1) := by
    have h := congrArg (List.count '\n') hread
    simpa [List.count_append] using h
  omega

private theorem credit_of_recoverable (hcr : '\r' ∉ x ++ (b ++ ['\\', '\n']) ++ rest)
    (hat : (Cursor.start.after tokens).At x (b ++ ['\\', '\n'] ++ rest))
    (hbefore : lastRow before = []) (hcount : before.count '\n' = k)
    (hread : before ++ line = x ++ (b ++ ['\\', '\n']))
    (hbreaks : before.count '\n' = x.count '\n' + b.count '\n')
    (h : Recoverable tokens (k + 1) line) :
    (Cursor.start.after tokens).credit = b ++ ['\\', '\n'] := by
  obtain ⟨last, head, blanks, hlast, hstop, hsplit, hblanks, hhead, hsignificant⟩ := h
  have hplace := place_after tokens hlast
  rw [hstop] at hplace
  rcases hat with hwithin | hpast
  · rw [hwithin.place] at hplace
    have hx : x.count '\n' = k := by
      have h := congrArg Place.row hplace
      simpa using h
    have hsize : (lastRow x).size = head.size := congrArg Place.column hplace
    obtain ⟨y, rfl, hy, hymem⟩ := exists_head hbefore hcount hread hx
    rw [lastRow_append_of_not_mem before hymem, hbefore, List.nil_append] at hsize
    have hyhead : y = head := by
      have hyline : y <+: line := ⟨_, hy.symm⟩
      have hheadline : head <+: line := ⟨blanks ++ ['\\', '\n'], by rw [hsplit]; simp⟩
      obtain ⟨z, rfl⟩ := Text.prefix_of_size_le hyline hheadline (by omega)
      have hz : z = [] := Text.eq_nil_of_size (by rw [Text.size_append] at hsize; omega)
      rw [hz, List.append_nil]
    subst hyhead
    have hb : b = blanks := by
      have h := hy.symm.trans hsplit
      rw [List.append_assoc] at h
      exact List.append_cancel_right (List.append_cancel_left h)
    subst hb
    have hbmem : '\n' ∉ b := List.count_eq_zero.mp (by omega)
    rw [credit_eq_iff hbmem hwithin, significant_after]
    refine ⟨hsignificant, ?_, ?_⟩
    · intro d hd
      rcases hblanks d hd with rfl | rfl <;> decide
    · intro d hd
      rw [lastRow_append_of_not_mem before hymem, hbefore, List.nil_append] at hd
      have hplain := hhead d hd
      have hdmem := List.mem_of_getLast? hd
      have hnewline : d ≠ '\n' := fun h => hymem (h ▸ hdmem)
      have hreturn : d ≠ '\r' := by
        rintro rfl
        exact hcr (by simp [hdmem])
      simp only [jointChars, List.mem_cons, List.not_mem_nil, or_false, not_or] at hplain ⊢
      exact ⟨hplain.1, hplain.2.1, hreturn, hnewline, hplain.2.2⟩
  · exfalso
    have hpastRow := hpast.row
    rw [hplace] at hpastRow
    simp only [place_row] at hpastRow
    omega

private theorem recoverable_of_credit
    (hat : (Cursor.start.after tokens).At x (b ++ ['\\', '\n'] ++ rest))
    (hgap : isGap (b ++ ['\\', '\n']) = true) (hbefore : lastRow before = [])
    (hcount : before.count '\n' = k) (hread : before ++ line = x ++ (b ++ ['\\', '\n']))
    (hbreaks : before.count '\n' = x.count '\n' + b.count '\n')
    (hcredit : (Cursor.start.after tokens).credit = b ++ ['\\', '\n']) :
    Recoverable tokens (k + 1) line := by
  have hwithin : (Cursor.start.after tokens).Within x (b ++ ['\\', '\n'] ++ rest) := by
    rcases hat with hwithin | hpast
    · exact hwithin
    · rw [hpast.credit] at hcredit
      simp at hcredit
  have hbmem : '\n' ∉ b := by
    rcases hwithin.credit_cases (by simp) with hnil | ⟨v, hv, hvmem⟩
    · rw [hnil] at hcredit
      simp at hcredit
    · have hvb : v = b ++ ['\\'] := by
        have h : v ++ ['\n'] = (b ++ ['\\']) ++ ['\n'] := by
          rw [← hv, hcredit]
          simp
        exact List.append_cancel_right h
      rw [hvb] at hvmem
      simpa using hvmem
  have hx : x.count '\n' = k := by
    rw [List.count_eq_zero_of_not_mem hbmem] at hbreaks
    omega
  obtain ⟨y, rfl, hy, hymem⟩ := exists_head hbefore hcount hread hx
  obtain ⟨hsignificant, hall, hlast⟩ := (credit_eq_iff hbmem hwithin).mp hcredit
  rw [lastRow_append_of_not_mem before hymem, hbefore, List.nil_append] at hlast
  have hspacing := spacing_of_gap_joint hbmem hgap
  have htokens : ∃ t, tokens.getLast? = some t := by
    cases htokens : tokens.getLast? with
    | some t => exact ⟨t, rfl⟩
    | none =>
      rw [List.getLast?_eq_none_iff.mp htokens] at hcredit
      simp [Cursor.credit, Cursor.start, isJoined] at hcredit
  obtain ⟨t, ht⟩ := htokens
  refine ⟨t, y, b, ht, ?_, by rw [hy]; simp, ?_, ?_, ?_⟩
  · rw [← place_after tokens ht, hwithin.place, place_append_of_not_mem before hymem]
    simp [hcount, hbefore]
  · intro d hd
    have hjoint := hall d hd
    have hspace := hspacing d hd
    simp only [isSpacing, Bool.or_eq_true, beq_iff_eq] at hspace
    rcases hspace with (rfl | rfl) | rfl
    · exact Or.inl rfl
    · exact Or.inr rfl
    · simp [jointChars] at hjoint
  · intro d hd hmem
    apply hlast d hd
    simp only [List.mem_cons, List.not_mem_nil, or_false] at hmem
    rcases hmem with rfl | rfl | rfl <;> decide
  · rw [← significant_after]
    exact hsignificant

/-- A continued line is recoverable exactly if the gap at its end comes out as it is. -/
theorem recoverable_iff (hcr : '\r' ∉ x ++ tail ++ rest)
    (hat : (Cursor.start.after tokens).At x (tail ++ rest)) (hgap : isGap tail = true)
    (hjoined : isJoined tail = true) (hbefore : lastRow before = [])
    (hcount : before.count '\n' = k) (hread : before ++ line = x ++ tail)
    (hrow : IsRow line rest) (hne : line ≠ []) :
    Recoverable tokens (k + 1) line ↔ (Cursor.start.after tokens).Recovers tail := by
  have htail : ∃ b, tail = b ++ ['\\', '\n'] := by
    have hmem : '\r' ∉ tail := fun h => hcr (by simp [h])
    rw [isJoined_iff hmem] at hjoined
    obtain ⟨b, hb⟩ := hjoined
    exact ⟨b, hb.symm⟩
  obtain ⟨b, rfl⟩ := htail
  have hrecovers : (Cursor.start.after tokens).Recovers (b ++ ['\\', '\n']) ↔
      (Cursor.start.after tokens).credit = b ++ ['\\', '\n'] := by
    have h := @Cursor.recovers_newline_iff (Cursor.start.after tokens) (b ++ ['\\'])
    simpa using h
  have hbreaks := count_before hread hrow hne
  rw [hrecovers]
  constructor
  · exact credit_of_recoverable hcr hat hbefore hcount hread hbreaks
  · exact recoverable_of_credit hat hgap hbefore hcount hread hbreaks

end Continuations

end DocstringFormat.Source
