import DocstringFormat.Proofs.Source.Blanks
import DocstringFormat.Proofs.Source.StringRows

/-!
Which tokens a row can hold.

Layout and comments stand at the ends of a row only.  So a string that follows an indentation, a
line break or a comment begins its row (`rowTokens_scanFrom`), a string that is open at the end of a
row is the next token (`exists_head_of_pending`), and a string that ends its statement has only a
comment and a line break after it on its row (`scanFrom_after_string`).
-/

set_option autoImplicit false

namespace DocstringFormat.Source

open Docstring (Opening)

/-- Nothing of the row stands between the tokens and what follows them, as far as the last of them
tells. -/
def OpensRow (before : List Token) : Prop :=
  ∀ t ∈ before.getLast?, t.kind ∈ [TokenKind.indent, .newline, .nl, .comment]

theorem opensRow_append {us : List Token} (ts : List Token) (hus : us ≠ []) :
    OpensRow (ts ++ us) ↔ OpensRow us := by
  rw [OpensRow, OpensRow, List.getLast?_append_of_ne_nil ts hus]

theorem not_opensRow_concat {t : Token} (ts : List Token)
    (h : t.kind ∉ [TokenKind.indent, .newline, .nl, .comment]) : ¬ OpensRow (ts ++ [t]) := by
  intro hopens
  exact h (hopens t (by simp))

/-- The tokens of a row from some depth of brackets on: line breaks of a logical line stand inside
brackets, and no string follows layout or a comment. -/
structure RowTokens (depth : Nat) (l : LineScan) : Prop where
  nl : ∀ a t b, l.tokens = a ++ t :: b → t.kind = .nl → 0 < a.foldl Token.depthAfter depth
  string : ∀ a t b, l.tokens = a ++ t :: b → t.kind = .string → a ≠ [] → ¬ OpensRow a
  pending : l.pending ≠ none → l.tokens ≠ [] → ¬ OpensRow l.tokens

section Rests

variable {row column depth : Nat} {line y : Text}

theorem kind_of_lexeme {c : Char} {rest : Text} {kind : TokenKind} {more : Nat}
    (h : lexeme c rest = .token kind more) :
    kind = .comment ∧ more = (Text.dropLineEnding rest).length ∨
      kind ∈ [TokenKind.name, .number, .string, .op, .errorToken] := by
  unfold lexeme at h
  split at h
  · cases h
  · split at h
    · cases h
      exact Or.inl ⟨rfl, rfl⟩
    · right
      split at h
      · cases h
      · split at h
        · cases h
          simp
        · split at h
          · rw [stringLexeme] at h
            split at h
            · cases h
              simp
            · split at h
              · cases h
              · cases h
                simp
          · split at h
            · cases h
              simp
            · split at h
              · cases h
                simp
              · cases h
                simp

private theorem scanFrom_lineEnding (hy : ∀ c ∈ y, c = '\r' ∨ c = '\n') (row : Nat) (line : Text)
    (column depth : Nat) :
    (∀ t ∈ (scanFrom row line column depth y).tokens,
        t.kind = if 0 < depth then .nl else .newline) ∧
      (scanFrom row line column depth y).tokens.length ≤ 1 ∧
      (scanFrom row line column depth y).depth = depth ∧
      (scanFrom row line column depth y).pending = none := by
  cases y with
  | nil =>
    rw [scanFrom]
    exact ⟨by simp, by simp, rfl, rfl⟩
  | cons c y =>
    have hc := hy c List.mem_cons_self
    have hspace : ¬ isSpacing c = true := by
      rcases hc with rfl | rfl <;> decide
    have hlex : lexeme c y = .lineEnd := by
      rw [lexeme, if_pos hc.symm]
    rw [scanFrom, if_neg hspace, hlex]
    exact ⟨by simp [tokenAt], by simp, rfl, rfl⟩

private theorem scanFrom_after_comment (rest : Text) :
    ∀ c ∈ rest.drop (Text.dropLineEnding rest).length, c = '\r' ∨ c = '\n' := by
  obtain ⟨ending, hrest, hending⟩ := exists_lineEnding rest
  have hdrop : rest.drop (Text.dropLineEnding rest).length = ending :=
    (congrArg (List.drop (Text.dropLineEnding rest).length) hrest).trans List.drop_left
  rw [hdrop]
  exact fun c hc => (hending c hc).symm

/-- The rest of a row holds what `RowTokens` says. -/
theorem rowTokens_scanFrom (row : Nat) (line : Text) (column depth : Nat) (y : Text) :
    RowTokens depth (scanFrom row line column depth y) := by
  fun_induction scanFrom row line column depth y with
  | case1 column depth => exact ⟨by simp, by simp, by simp⟩
  | case2 column depth c y hspace ih => exact ih
  | case3 column depth c y hspace hlex =>
    refine ⟨?_, ?_, by simp⟩
    · intro a t b hsplit hkind
      rcases List.append_eq_singleton_iff.mp hsplit.symm with ⟨rfl, ht⟩ | ⟨-, ht⟩
      · cases ht
        simp only [tokenAt] at hkind
        split at hkind
        · assumption
        · cases hkind
      · cases ht
    · intro a t b hsplit hkind hne
      rcases List.append_eq_singleton_iff.mp hsplit.symm with ⟨rfl, -⟩ | ⟨-, ht⟩
      · exact absurd rfl hne
      · cases ht
  | case4 column depth c y hspace hlex => exact ⟨by simp, by simp, by simp⟩
  | case5 column depth c y hspace quote hlex => exact ⟨by simp, by simp, by simp⟩
  | case6 column depth c y hspace kind more hlex text =>
    rename_i ih
    have hcomment : kind = .comment → (∀ t ∈ (scanFrom row line (column + text.size)
        (depthAfterToken depth kind c) (y.drop more)).tokens, t.kind ≠ .string) ∧
        (scanFrom row line (column + text.size) (depthAfterToken depth kind c)
          (y.drop more)).pending = none := by
      intro hkind
      have hmore : more = (Text.dropLineEnding y).length := by
        rcases kind_of_lexeme hlex with ⟨-, hmore⟩ | hmem
        · exact hmore
        · simp [hkind] at hmem
      obtain ⟨hkinds, -, -, hpending⟩ := scanFrom_lineEnding (scanFrom_after_comment y) row line
        (column + text.size) (depthAfterToken depth kind c)
      rw [hmore]
      refine ⟨?_, hpending⟩
      intro t ht
      rw [hkinds t ht]
      split <;> simp
    have hopens : kind ≠ .comment →
        ¬ OpensRow [tokenAt kind text row column line] := by
      intro hne
      apply not_opensRow_concat []
      rcases kind_of_lexeme hlex with ⟨hkind, -⟩ | hmem
      · exact absurd hkind hne
      · simp only [List.mem_cons, List.not_mem_nil, or_false] at hmem
        rcases hmem with rfl | rfl | rfl | rfl | rfl <;> simp [tokenAt]
    generalize scanFrom row line (column + text.size) (depthAfterToken depth kind c)
      (y.drop more) = l at ih hcomment
    have hafter : Token.depthAfter depth (tokenAt kind text row column line) =
        depthAfterToken depth kind c := rfl
    refine ⟨?_, ?_, ?_⟩
    · intro a t b hsplit hkind
      cases a with
      | nil =>
        exfalso
        obtain ⟨rfl, -⟩ := List.cons.inj hsplit
        rcases kind_of_lexeme hlex with ⟨hcomment, -⟩ | hmem
        · rw [hcomment] at hkind
          cases hkind
        · change kind = .nl at hkind
          simp [hkind] at hmem
      | cons t' a =>
        obtain ⟨rfl, hrest⟩ := List.cons.inj hsplit
        rw [List.foldl_cons, hafter]
        exact ih.nl a t b hrest hkind
    · intro a t b hsplit hkind hne
      cases a with
      | nil => exact absurd rfl hne
      | cons t' a =>
        obtain ⟨rfl, hrest⟩ := List.cons.inj hsplit
        cases a with
        | nil =>
          apply hopens
          intro hcomm
          exact (hcomment hcomm).1 t (by rw [hrest]; simp) hkind
        | cons t'' a =>
          rw [← List.singleton_append, opensRow_append _ (by simp)]
          exact ih.string _ t b hrest hkind (by simp)
    · intro hpending _
      change ¬ OpensRow ([tokenAt kind text row column line] ++ l.tokens)
      by_cases hnil : l.tokens = []
      · rw [hnil, List.append_nil]
        apply hopens
        exact fun hcomm => hpending (hcomment hcomm).2
      · rw [opensRow_append _ hnil]
        exact ih.pending hpending hnil

/-- A string that ends its statement has only a comment and the line break after it on its row. -/
theorem scanFrom_after_string {later : List Token} (hy : y.getLast? = some '\n')
    (hends : endsStatement ((scanFrom row line column 0 y).tokens ++ later) = true)
    (hcontinued : (scanFrom row line column 0 y).continued = false)
    (hlater : (scanFrom row line column 0 y).pending ≠ none →
      ∃ t ts, later = t :: ts ∧ (t.kind = .string ∨ t.kind = .errorToken)) :
    (∀ t ∈ (scanFrom row line column 0 y).tokens, t.kind = .comment ∨ t.kind = .newline) ∧
      (scanFrom row line column 0 y).depth = 0 ∧
      (scanFrom row line column 0 y).pending = none := by
  generalize hdepth : 0 = depth at *
  fun_induction scanFrom row line column depth y with
  | case1 column depth => cases hy
  | case2 column depth c y hspace ih =>
    refine ih ?_ hdepth hends hcontinued hlater
    cases y with
    | nil =>
      have hc : c = '\n' := by simpa using hy
      exact absurd hc (isSpacing_ne_newline hspace)
    | cons d y => simpa using hy
  | case3 column depth c y hspace hlex =>
    subst hdepth
    exact ⟨by simp [tokenAt], rfl, rfl⟩
  | case4 column depth c y hspace hlex => cases hcontinued
  | case5 column depth c y hspace quote hlex =>
    exfalso
    obtain ⟨t, ts, rfl, hkind⟩ := hlater (by simp)
    rcases hkind with hkind | hkind <;> simp [endsStatement, hkind] at hends
  | case6 column depth c y hspace kind more hlex text =>
    subst hdepth
    rcases kind_of_lexeme hlex with ⟨rfl, rfl⟩ | hmem
    · obtain ⟨hkinds, -, hdepth, hpending⟩ := scanFrom_lineEnding (scanFrom_after_comment y) row line
        (column + text.size) (depthAfterToken 0 .comment c)
      refine ⟨?_, hdepth, hpending⟩
      intro t ht
      rcases List.mem_cons.mp ht with rfl | ht
      · exact Or.inl rfl
      · exact Or.inr (hkinds t ht)
    · exfalso
      simp only [List.mem_cons, List.not_mem_nil, or_false] at hmem
      rcases hmem with rfl | rfl | rfl | rfl | rfl <;>
        simp [LineScan.push, endsStatement, tokenAt] at hends

end Rests

section Lines

variable {st last : Scanner} {p : OpenString} {row : Nat} {ls : List Text} {tokens : List Token}

/-- A string that is open is the next token. -/
theorem exists_head_of_pending (hp : st.pending = some p)
    (h : scanLines st row ls = .ok (tokens, last)) (hlast : last.pending = none) :
    ∃ t ts, tokens = t :: ts ∧ p.text <+: t.text ∧ (t.kind = .string ∨ t.kind = .errorToken) := by
  induction ls generalizing st row p tokens with
  | nil =>
    cases h
    rw [hp] at hlast
    cases hlast
  | cons line ls ih =>
    obtain ⟨mid, before, more, hline, hmore, rfl⟩ := scanLines_cons h
    rw [scanLine, hp] at hline
    simp only [scanInString] at hline
    split at hline
    · cases hline
      exact ⟨_, _, rfl, List.prefix_append _ _, Or.inl rfl⟩
    · split at hline
      · cases hline
        exact ⟨_, _, rfl, List.prefix_append _ _, Or.inr rfl⟩
      · cases hline
        obtain ⟨t, ts, rfl, ⟨rest, hrest⟩, hkind⟩ := ih rfl hmore
        refine ⟨t, ts, rfl, ?_, hkind⟩
        rw [← hrest, List.append_assoc]
        exact List.prefix_append _ _

theorem scanLine_fresh_cases {mid : Scanner} {line : Text} (hdepth : st.depth = 0)
    (hcontinued : st.continued = false) (hpending : st.pending = none)
    (h : scanLine st row line = .ok (tokens, mid)) :
    ∃ lead y, line = lead ++ y ∧ (∀ c ∈ lead, isSpacing c = true) ∧
      (isCodeless y = true ∧ tokens = emptyLineTokens row lead.size y line ∧ mid = st ∨
        startsCode y = true ∧ ∃ indents moves,
          adjustIndents st.indents row lead line = .ok (indents, moves) ∧
            (tokens, mid) = Scanner.after indents moves (scanFrom row line lead.size 0 y)) := by
  have hlead : ∀ c ∈ line.takeWhile isSpacing, isSpacing c = true := fun c hc =>
    List.all_eq_true.mp List.all_takeWhile c hc
  have hsplit : line = line.takeWhile isSpacing ++ line.dropWhile isSpacing :=
    List.takeWhile_append_dropWhile.symm
  have hdrop : line.drop (line.takeWhile isSpacing).length = line.dropWhile isSpacing :=
    (congrArg (List.drop (line.takeWhile isSpacing).length) hsplit).trans List.drop_left
  have hhead := List.head?_dropWhile_not isSpacing line
  rw [scanLine, hpending] at h
  simp only [hdepth, hcontinued, Bool.not_false, and_self, if_true, scanFresh, hdrop] at h
  generalize line.takeWhile isSpacing = lead at *
  generalize line.dropWhile isSpacing = y at *
  refine ⟨lead, y, hsplit, hlead, ?_⟩
  split at h
  · rename_i hcodeless
    cases h
    exact Or.inl ⟨hcodeless, rfl, rfl⟩
  · rename_i hcodeless
    right
    refine ⟨?_, ?_⟩
    · cases y with
      | nil => exact absurd rfl hcodeless
      | cons c y =>
        have hc : isSpacing c = false := by simpa using hhead
        simp [startsCode, hc, hcodeless]
    · cases hmoves : adjustIndents st.indents row lead line with
      | error cause =>
        rw [hmoves] at h
        cases h
      | ok result =>
        rw [hmoves] at h
        exact ⟨result.1, result.2, rfl, (Except.ok.inj h).symm⟩

end Lines

section Docstrings

variable {st last : Scanner} {row : Nat} {lead y line : Text} {ls : List Text} {indents : List Nat}
  {moves more : List Token} {t : Token}

private theorem scanFrom_head (hcode : startsCode y = true) (row : Nat) (line : Text)
    (column depth : Nat) :
    (scanFrom row line column depth y).continued = true ∨
      (∃ p, (scanFrom row line column depth y).tokens = [] ∧
        (scanFrom row line column depth y).pending = some p ∧ p.text = y) ∨
      ∃ t ts, (scanFrom row line column depth y).tokens = t :: ts ∧ t.text <+: y := by
  cases y with
  | nil => cases hcode
  | cons c y =>
    simp only [startsCode, Bool.and_eq_true, Bool.not_eq_true'] at hcode
    rw [scanFrom, if_neg (by simp [hcode.1])]
    cases hlex : lexeme c y with
    | lineEnd =>
      rcases lexeme_eq_lineEnd hlex with rfl | rfl <;> simp [isCodeless] at hcode
    | continuation => exact Or.inl rfl
    | openString quote => exact Or.inr (Or.inl ⟨_, rfl, rfl, rfl⟩)
    | token kind n =>
      refine Or.inr (Or.inr ⟨_, _, rfl, ?_⟩)
      exact (List.prefix_cons_inj c).mpr (List.take_prefix _ _)

theorem exists_first_of_code {column depth : Nat} {more : List Token} (hcode : startsCode y = true)
    (hjoined : (scanFrom row line column depth y).continued = false)
    (hmore : scanLines st (row + 1) ls = .ok (more, last))
    (hst : st.pending = (scanFrom row line column depth y).pending) (hlast : last.pending = none) :
    ∃ t ts, (scanFrom row line column depth y).tokens ++ more = t :: ts := by
  rcases scanFrom_head hcode row line column depth with h | ⟨p, -, hp, -⟩ | ⟨t, ts, h, -⟩
  · rw [hjoined] at h
    cases h
  · obtain ⟨t, ts, rfl, -⟩ := exists_head_of_pending (hst.trans hp) hmore hlast
    exact List.exists_cons_of_ne_nil (by simp)
  · exact ⟨t, ts ++ more, by rw [h, List.cons_append]⟩

private theorem opening_isPrefix {o : Opening} {rest : List Token} {mid : Scanner}
    (hcode : startsCode y = true)
    (hyLast : y.getLast? = some '\n')
    (hjoined : (scanFrom row (lead ++ y) lead.size 0 y).continued = false)
    (hmid : mid.pending = (scanFrom row (lead ++ y) lead.size 0 y).pending)
    (hrest : scanLines mid (row + 1) ls = .ok (rest, last)) (hlast : last.pending = none)
    (hfirst : t :: more = (scanFrom row (lead ++ y) lead.size 0 y).tokens ++ rest)
    (ho : o ∈ Opening.all) (hbegins : o.text <+: t.text) : o.text <+: y := by
  rcases scanFrom_head hcode row (lead ++ y) lead.size 0 with h | ⟨p, hnone, hp, htext⟩ |
    ⟨t', ts, hsome, htext⟩
  · rw [hjoined] at h
    cases h
  · obtain ⟨t', ts, rfl, htext', -⟩ := exists_head_of_pending (hmid.trans hp) hrest hlast
    rw [hnone, List.nil_append] at hfirst
    obtain ⟨rfl, -⟩ := List.cons.inj hfirst
    rw [htext] at htext'
    rcases List.prefix_or_prefix_of_prefix hbegins htext' with h | ⟨v, hv⟩
    · exact h
    · exfalso
      apply newline_not_mem_opening ho
      rw [← hv]
      exact List.mem_append_left v (List.mem_of_getLast? hyLast)
  · rw [hsome] at hfirst
    obtain ⟨rfl, -⟩ := List.cons.inj hfirst
    exact hbegins.trans htext

private theorem exists_closing {o : Opening} {z : Text} {rest : List Token} (ho : o ∈ Opening.all)
    (hzLast : z.getLast? = some '\n') (hlines : ∀ l ∈ ls, IsLine l)
    (hopen : closingLength? o.quote z = none → scanLines ⟨indents, 0, false, some ⟨⟨row, lead.size⟩,
      o.text ++ z, lead ++ (o.text ++ z), o.quote⟩⟩ (row + 1) ls = .ok (rest, last))
    (hlast : last.pending = none) : ∃ n, closingLength? o.quote (z ++ ls.flatten) = some n := by
  obtain ⟨hlength, hquote⟩ := quote_of_opening ho
  have hne : o.quote ≠ [] := List.ne_nil_of_length_pos (by omega)
  cases hz : closingLength? o.quote z with
  | some n => exact ⟨n, closingLength?_append hz _⟩
  | none =>
    have hends := @endsString_scanLines ⟨indents, 0, false, some ⟨⟨row, lead.size⟩, o.text ++ z,
      lead ++ (o.text ++ z), o.quote⟩⟩ (row + 1) ls _ rfl rfl rfl hlength hquote
      (rows_of_isLine hlines [])
    unfold EndsString at hends
    split at hends
    · obtain ⟨st', hst', hstays⟩ := hends
      cases (hopen hz).symm.trans hst'
      exact absurd hlast hstays
    · rename_i n hn
      obtain ⟨v, rfl⟩ := List.getLast?_eq_some_iff.mp hzLast
      refine ⟨n + (v.length + 1), ?_⟩
      have hmore := closingLength?_append_line hquote hne hz ls.flatten
      rw [hn] at hmore
      rw [List.append_assoc]
      exact hmore

theorem exists_docstring_rows (hdepth : st.depth = 0) (hcontinued : st.continued = false)
    (hpending : st.pending = none) (hlead : ∀ c ∈ lead, isSpacing c = true)
    (hcode : startsCode y = true)
    (hmoves : adjustIndents st.indents row lead (lead ++ y) = .ok (indents, moves))
    (hlines : ∀ l ∈ (lead ++ y) :: ls, IsLine l)
    (hscan : scanLines st row ((lead ++ y) :: ls) = .ok (moves ++ t :: more, last))
    (hnever : NeverContinued st row ((lead ++ y) :: ls)) (hlast : last.pending = none)
    (hliteral : Docstring.isLiteral t.text = true) :
    ∃ o ∈ Opening.all, ∃ body u ls', closingLength? o.quote body = some body.length ∧ '\n' ∉ u ∧
      lead ++ y = firstRow (lead ++ ((o.text ++ body) ++ (u ++ ['\n']))) ∧
      (lead ++ y) :: ls =
        Text.rawLines (lead ++ ((o.text ++ body) ++ (u ++ ['\n']))) ++ ls' := by
  obtain ⟨mid, before, rest, hline, hrest, htoks⟩ := scanLines_cons hscan
  have hmid := (hnever.cons hline).1
  rw [scanLine_of_code hdepth hcontinued hpending hlead hcode hmoves] at hline
  obtain ⟨hbefore, rfl⟩ := Prod.mk.inj (Except.ok.inj hline)
  rw [← hbefore, List.append_assoc] at htoks
  have hfirst := List.append_cancel_left htoks
  have hyLast : y.getLast? = some '\n' := by
    obtain ⟨v, hv, -⟩ := hlines (lead ++ y) List.mem_cons_self
    have hne : y ≠ [] := by
      rintro rfl
      cases hcode
    rw [← List.getLast?_append_of_ne_nil lead hne, hv]
    simp
  -- The opening of the literal stands on the first row.
  obtain ⟨o, ho, hbegins⟩ := List.any_eq_true.mp hliteral
  rw [List.isPrefixOf_iff_prefix] at hbegins
  have hopening := opening_isPrefix hcode hyLast hmid rfl hrest hlast hfirst ho hbegins
  obtain ⟨z, rfl⟩ := hopening
  obtain ⟨hlength, hquote⟩ := quote_of_opening ho
  have hne : o.quote ≠ [] := by
    rintro hnil
    simp [hnil] at hlength
  have hzNe : z ≠ [] := by
    rintro rfl
    rw [List.append_nil] at hyLast
    exact newline_not_mem_opening ho (List.mem_of_getLast? hyLast)
  have hzLast : z.getLast? = some '\n' := by
    rw [← hyLast, List.getLast?_append_of_ne_nil _ hzNe]
  have hlinesRest : ∀ l ∈ ls, IsLine l := fun l hl => hlines l (List.mem_cons_of_mem _ hl)
  -- Its closing quote stands there or on a later row.
  have hclose := exists_closing ho hzLast hlinesRest (fun hz => by
    rwa [scanFrom_opening ho, hz] at hrest) hlast
  obtain ⟨n, hn⟩ := hclose
  have hwhole : ((lead ++ (o.text ++ z)) :: ls).flatten =
      lead ++ ((o.text ++ (z ++ ls.flatten).take n) ++ (z ++ ls.flatten).drop n) := by
    rw [List.append_assoc o.text, List.take_append_drop]
    simp
  have hrow : lastRow ((lead ++ (o.text ++ z)) :: ls).flatten = [] := by
    have hcomplete := lastRow_flatten hlines (x := []) rfl
    rwa [List.nil_append] at hcomplete
  have hbody := closingLength?_take hne hn
  generalize (z ++ ls.flatten).take n = body at hwhole hbody
  generalize (z ++ ls.flatten).drop n = after at hwhole
  have hafter : '\n' ∈ after := by
    -- The literal ends in a quote, and the rows end in a line feed.
    by_contra hnone
    obtain ⟨inner, hinner⟩ := exists_append_quote hbody
    rw [hwhole, ← List.append_assoc, lastRow_append_of_not_mem _ hnone] at hrow
    have hread := (List.append_eq_nil_iff.mp hrow).1
    rw [hinner, ← List.append_assoc, ← List.append_assoc] at hread
    refine lastRow_append_ne_nil _ hne ?_ hread
    exact fun hq => hquote (List.mem_of_getLast? hq)
  obtain ⟨u, w, rfl, hu⟩ := (Text.newline_split after).resolve_left (fun h => h hafter)
  have hsplit : ((lead ++ (o.text ++ z)) :: ls).flatten =
      lead ++ ((o.text ++ body) ++ (u ++ ['\n'])) ++ w := by
    rw [hwhole]
    simp
  refine ⟨o, ho, body, u, Text.rawLines w, hbody, hu, ?_, ?_⟩
  · rw [← firstRow_append_of_mem (by simp) w, ← hsplit, List.flatten_cons,
      firstRow_of_isRow ((hlines _ List.mem_cons_self).isRow _)]
  · rw [← rawLines_flatten hlines, hsplit, rawLines_append_complete]
    rw [← List.append_assoc, ← List.append_assoc, lastRow_append_newline]
    rfl

end Docstrings

end DocstringFormat.Source
