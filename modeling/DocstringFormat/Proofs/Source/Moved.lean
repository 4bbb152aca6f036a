import DocstringFormat.Proofs.Source.StringToken
import Mathlib.Data.List.Forall2

/-!
Lines at another row.

What the scanner makes of a line does not depend on the row: tokens and open strings move along
with the line (`scanLine_moved`).  The rest of a line is even read the same on another line, after
another string (`scanFrom_alike`).
-/

set_option autoImplicit false

namespace DocstringFormat.Source

section Relations

structure Token.Moved (t u : Token) : Prop where
  kind : u.kind = t.kind
  text : u.text = t.text
  line : u.line = t.line
  rows : t.stop.row + u.start.row = u.stop.row + t.start.row

structure OpenString.Moved (row row' : Nat) (p q : OpenString) : Prop where
  text : q.text = p.text
  lines : q.lines = p.lines
  quote : q.quote = p.quote
  rows : row + q.start.row = row' + p.start.row

structure Scanner.Moved (row row' : Nat) (st st' : Scanner) : Prop where
  indents : st'.indents = st.indents
  depth : st'.depth = st.depth
  continued : st'.continued = st.continued
  pending : Option.Rel (OpenString.Moved row row') st.pending st'.pending

structure Token.On (t : Token) (row : Nat) (line : Text) : Prop where
  line : t.line = line
  start : t.start.row = row
  stop : t.stop.row = row

structure Token.Alike (row row' : Nat) (line line' : Text) (t u : Token) : Prop where
  kind : u.kind = t.kind
  text : u.text = t.text
  left : t.On row line
  right : u.On row' line'

structure LineScan.Alike (row row' : Nat) (line line' : Text) (l l' : LineScan) : Prop where
  tokens : List.Forall₂ (Token.Alike row row' line line') l.tokens l'.tokens
  depth : l'.depth = l.depth
  continued : l'.continued = l.continued
  pending : Option.Rel (fun p q => q.text = p.text ∧ q.quote = p.quote ∧
    (p.lines = line ∧ p.start.row = row) ∧ q.lines = line' ∧ q.start.row = row')
      l.pending l'.pending

theorem Scanner.Moved.of_closed {st st' : Scanner} (hindents : st'.indents = st.indents)
    (hdepth : st'.depth = st.depth) (hcontinued : st'.continued = st.continued)
    (hpending : st.pending = none) (hpending' : st'.pending = none) (row row' : Nat) :
    st.Moved row row' st' := by
  refine ⟨hindents, hdepth, hcontinued, ?_⟩
  rw [hpending, hpending']
  exact Option.Rel.none

theorem Scanner.Moved.pending_eq_none_iff {row row' : Nat} {st st' : Scanner}
    (h : st.Moved row row' st') : st'.pending = none ↔ st.pending = none := by
  have hpending := h.pending
  generalize st.pending = pending, st'.pending = pending' at hpending
  cases hpending <;> simp

end Relations

section Rows

variable {row row' : Nat}

private theorem tokenAt_alike (kind : TokenKind) (text : Text) (row row' column column' : Nat)
    (line line' : Text) :
    Token.Alike row row' line line' (tokenAt kind text row column line)
      (tokenAt kind text row' column' line') :=
  ⟨rfl, rfl, ⟨rfl, rfl, rfl⟩, rfl, rfl, rfl⟩

private theorem Token.Alike.moved {line : Text} {t u : Token}
    (h : Token.Alike row row' line line t u) :
    t.Moved u := by
  refine ⟨h.kind, h.text, h.right.line.trans h.left.line.symm, ?_⟩
  have hleft := h.left.start
  have hleft' := h.left.stop
  have hright := h.right.start
  have hright' := h.right.stop
  omega

/-- The rest of a line is read the same wherever it stands. -/
theorem scanFrom_alike (row row' : Nat) (line line' : Text) (column column' depth : Nat) (y : Text) :
    LineScan.Alike row row' line line' (scanFrom row line column depth y)
      (scanFrom row' line' column' depth y) := by
  fun_induction scanFrom row line column depth y generalizing column' with
  | case1 column depth =>
    rw [scanFrom]
    exact ⟨.nil, rfl, rfl, .none⟩
  | case2 column depth c y hspace ih =>
    rw [scanFrom, if_pos hspace]
    exact ih _
  | case3 column depth c y hspace hlex =>
    rw [scanFrom, if_neg hspace, hlex]
    exact ⟨.cons (tokenAt_alike ..) .nil, rfl, rfl, .none⟩
  | case4 column depth c y hspace hlex =>
    rw [scanFrom, if_neg hspace, hlex]
    exact ⟨.nil, rfl, rfl, .none⟩
  | case5 column depth c y hspace quote hlex =>
    rw [scanFrom, if_neg hspace, hlex]
    exact ⟨.nil, rfl, rfl, .some ⟨rfl, rfl, ⟨rfl, rfl⟩, rfl, rfl⟩⟩
  | case6 column depth c y hspace kind more hlex text =>
    rename_i ih
    rw [scanFrom, if_neg hspace, hlex]
    have hrest := ih (column' + text.size)
    exact ⟨.cons (tokenAt_alike ..) hrest.tokens, hrest.depth,
      hrest.continued, hrest.pending⟩

private theorem LineScan.Alike.moved {line : Text} {l l' : LineScan}
    (h : LineScan.Alike row row' line line l l') (indents : List Nat) :
    List.Forall₂ Token.Moved l.tokens l'.tokens ∧
      Scanner.Moved (row + 1) (row' + 1) ⟨indents, l.depth, l.continued, l.pending⟩
        ⟨indents, l'.depth, l'.continued, l'.pending⟩ := by
  refine ⟨h.tokens.imp fun t u => Token.Alike.moved, rfl, h.depth, h.continued, ?_⟩
  have hpending := h.pending
  dsimp only
  generalize l.pending = pending, l'.pending = pending' at hpending ⊢
  cases hpending with
  | none => exact .none
  | some hsame =>
    obtain ⟨htext, hquote, ⟨hlines, hstart⟩, hlines', hstart'⟩ := hsame
    refine .some ⟨htext, hlines'.trans hlines.symm, hquote, ?_⟩
    omega

theorem adjustIndents_alike {indents indents' : List Nat} {lead line : Text} {moves : List Token}
    (h : adjustIndents indents row lead line = .ok (indents', moves)) (row' : Nat) (line' : Text) :
    ∃ moves', adjustIndents indents row' lead line' = .ok (indents', moves') ∧
      List.Forall₂ (Token.Alike row row' line line') moves moves' := by
  simp only [adjustIndents] at h ⊢
  split at h
  · rename_i hdeeper
    cases h
    rw [if_pos hdeeper]
    exact ⟨_, rfl, .cons (tokenAt_alike ..) .nil⟩
  · rename_i hdeeper
    rw [if_neg hdeeper]
    split at h
    · rename_i houter
      rw [if_pos houter]
      split at h
      · cases h
      · rename_i hmember
        cases h
        rw [if_neg hmember]
        refine ⟨_, rfl, ?_⟩
        rw [List.forall₂_map_left_iff, List.forall₂_map_right_iff, List.forall₂_same]
        exact fun _ _ => tokenAt_alike ..
    · rename_i houter
      cases h
      rw [if_neg houter]
      exact ⟨[], rfl, .nil⟩

variable {st st' : Scanner} {line : Text} {tokens : List Token} {last : Scanner}

private theorem scanFresh_moved (h : scanFresh st row line = .ok (tokens, last))
    (hst : st.Moved row row' st') (hpending : st.pending = none) :
    ∃ tokens' last', scanFresh st' row' line = .ok (tokens', last') ∧
      List.Forall₂ Token.Moved tokens tokens' ∧ last.Moved (row + 1) (row' + 1) last' := by
  have hpending' := hst.pending_eq_none_iff.mpr hpending
  simp only [scanFresh] at h ⊢
  split at h
  · rename_i hcodeless
    cases h
    rw [if_pos hcodeless]
    refine ⟨_, _, rfl, ?_,
      .of_closed hst.indents hst.depth hst.continued hpending hpending' _ _⟩
    unfold emptyLineTokens
    split
    · exact .cons (tokenAt_alike ..).moved (.cons (tokenAt_alike ..).moved .nil)
    · exact .cons (tokenAt_alike ..).moved .nil
  · rename_i hcodeless
    rw [if_neg hcodeless]
    generalize line.takeWhile isSpacing = lead at h ⊢
    cases hmoves : adjustIndents st.indents row lead line with
    | error cause =>
      rw [hmoves] at h
      cases h
    | ok result =>
      obtain ⟨indents, moves⟩ := result
      rw [hmoves] at h
      cases h
      obtain ⟨moves', hmoves', halike⟩ := adjustIndents_alike hmoves row' line
      rw [hst.indents, hst.depth, hmoves']
      obtain ⟨hscan, hlast⟩ := (scanFrom_alike row row' line line (Text.size lead)
        (Text.size lead) st.depth
        (line.drop lead.length)).moved indents
      exact ⟨_, _, rfl, List.rel_append (halike.imp fun t u => Token.Alike.moved) hscan, hlast⟩

private theorem scanInString_moved {p q : OpenString} (hst : st.Moved row row' st')
    (hp : p.Moved row row' q) (line : Text) :
    List.Forall₂ Token.Moved (scanInString st p row line).1 (scanInString st' q row' line).1 ∧
      (scanInString st p row line).2.Moved (row + 1) (row' + 1) (scanInString st' q row' line).2 := by
  unfold scanInString
  rw [hp.quote, hst.depth, hst.indents]
  have hrows := hp.rows
  split
  · rename_i n hn
    obtain ⟨hscan, hlast⟩ := (scanFrom_alike row row' line line (Text.size (line.take n))
      (Text.size (line.take n)) st.depth (line.drop n)).moved st.indents
    refine ⟨.cons ⟨rfl, ?_, ?_, hrows⟩ hscan, hlast⟩
    · rw [hp.text]
    · rw [hp.lines]
  · split
    · refine ⟨.cons ⟨rfl, ?_, ?_, hrows⟩ .nil, rfl, rfl, hst.continued, .none⟩
      · rw [hp.text]
      · rw [hp.lines]
    · refine ⟨.nil, rfl, rfl, hst.continued, .some ⟨?_, ?_, rfl, ?_⟩⟩
      · rw [hp.text]
      · rw [hp.lines]
      · simp only
        omega

/-- A line reads the same at another row. -/
theorem scanLine_moved (h : scanLine st row line = .ok (tokens, last))
    (hst : st.Moved row row' st') :
    ∃ tokens' last', scanLine st' row' line = .ok (tokens', last') ∧
      List.Forall₂ Token.Moved tokens tokens' ∧ last.Moved (row + 1) (row' + 1) last' := by
  unfold scanLine at h ⊢
  rw [hst.depth, hst.continued]
  cases hp : st.pending with
  | some p =>
    have hpending := hst.pending
    rw [hp] at h hpending
    cases hq : st'.pending with
    | none =>
      rw [hq] at hpending
      cases hpending
    | some q =>
      rw [hq] at hpending
      cases hpending with
      | some hmoved =>
        have hline := scanInString_moved hst hmoved line
        rw [Except.ok.inj h] at hline
        exact ⟨_, _, rfl, hline.1, hline.2⟩
  | none =>
    rw [hp] at h
    rw [hst.pending_eq_none_iff.mpr hp]
    dsimp only at h ⊢
    split at h
    · rename_i hfresh
      rw [if_pos hfresh]
      exact scanFresh_moved h hst hp
    · rename_i hfresh
      cases h
      rw [if_neg hfresh, hst.indents]
      obtain ⟨hscan, hlast⟩ := (scanFrom_alike row row' line line 0 0 st.depth line).moved st.indents
      exact ⟨_, _, rfl, hscan, hlast⟩

end Rows

end DocstringFormat.Source
