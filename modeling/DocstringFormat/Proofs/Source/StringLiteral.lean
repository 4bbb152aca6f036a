import DocstringFormat.Proofs.Source.Coverage
import DocstringFormat.Proofs.Source.Revision

/-!
String tokens are complete literals.

The scanner looks for the end of a string in one row after another and keeps nothing of an escape at
the end of a row.  All the same, every string token is what a single pass over the source reads: an
opening, a body, and the first closing quote that no backslash hides (`IsLiteral`).  A string that is
open between two rows has no closing quote so far (`OpenString.Unclosed`), and one row keeps that
(`readsStrings_scanLine`).  The main result is `string_tokens_are_literals`.
-/

set_option autoImplicit false

namespace DocstringFormat.Source

/-- The places that one pass over a text comes to; a backslash takes the character after it along. -/
inductive Passes : Text → Text → Prop
  | start (s : Text) : Passes s s
  | escape {d : Char} {s r : Text} : Passes s r → Passes ('\\' :: d :: s) r
  | plain {c : Char} {s r : Text} : c ≠ '\\' → Passes s r → Passes (c :: s) r

/-- A pass over `s` meets `quote` for the first time where nothing else is left. -/
structure MeetsLast (quote s : Text) : Prop where
  met : Passes s quote
  first : ∀ r, Passes s r → quote <+: r → r = quote

/-- Marks and a quote open a string, `rest` being the text after the marks: the quote is a triple one
exactly if three quotes stand there. -/
structure OpensString (mark quote rest : Text) : Prop where
  mark : mark = [] ∨ mark ∈ stringMarks
  quote : ∃ q, IsQuote q ∧ (quote = [q, q, q] ∨ quote = [q] ∧ ¬ [q, q, q] <+: rest)

/-- A complete string literal that `after` follows: its opening, its body, and the closing quote, which
one pass over the rest meets there for the first time. -/
def IsLiteral (text after : Text) : Prop :=
  ∃ mark quote body, text = mark ++ quote ++ body ++ quote ∧
    OpensString mark quote (quote ++ body ++ quote ++ after) ∧ MeetsLast quote (body ++ quote)

def Token.Complete (t : Token) : Prop :=
  ∃ before after, t.line = before ++ t.text ++ after ∧ t.start.column = before.size ∧
    IsLiteral t.text after

/-- A string is open, no row so far closes it, and its last row is complete if anything follows. -/
def OpenString.Unclosed (p : OpenString) (rest : Text) : Prop :=
  ∃ before mark body, p.lines = before ++ p.text ∧ p.start.column = before.size ∧
    p.text = mark ++ p.quote ++ body ∧ OpensString mark p.quote (p.quote ++ body) ∧
    closingLength? p.quote body = none ∧ (body.getLast? = some '\n' ∨ rest = [])

structure ReadsStrings (tokens : List Token) (pending : Option OpenString) (rest : Text) : Prop where
  complete : ∀ t ∈ tokens, t.kind = .string → t.Complete
  unclosed : ∀ p, pending = some p → p.Unclosed rest

section Passes

variable {quote s r : Text}

theorem Passes.length_le (h : Passes s r) : r.length ≤ s.length := by
  induction h with
  | start s => exact Nat.le_refl _
  | escape _ ih => exact ih.trans (by simp only [List.length_cons]; omega)
  | plain _ _ ih => exact ih.trans (Nat.le_succ _)

private theorem not_prefix_backslash (hquote : IsOpeningQuote quote) (s : Text) :
    ¬ quote <+: '\\' :: s := by
  intro hstarts
  obtain ⟨q, hq, rfl | rfl⟩ := hquote
  all_goals exact hq.ne_backslash (List.cons_prefix_cons.mp hstarts).1

private theorem meetsLast_of_closingLength? (hquote : IsOpeningQuote quote)
    (h : closingLength? quote s = some s.length) : MeetsLast quote s := by
  induction s using escape_induction with
  | nil => cases h
  | lone => cases h
  | escape d s ih =>
    rw [closingLength?_escape] at h
    obtain ⟨n, hn, hlength⟩ := Option.map_eq_some_iff.mp h
    obtain rfl : n = s.length := by simpa using hlength
    have hs := ih hn
    refine ⟨.escape hs.met, ?_⟩
    intro r hr hstarts
    cases hr with
    | start => exact absurd hstarts (not_prefix_backslash hquote _)
    | escape hr => exact hs.first r hr hstarts
    | plain hc => exact absurd rfl hc
  | plain c s hc ih =>
    rw [closingLength?_plain hc] at h
    split at h
    · rename_i hfound
      have heq : quote = c :: s :=
        (List.isPrefixOf_iff_prefix.mp hfound).eq_of_length (Option.some.inj h)
      subst heq
      refine ⟨.start _, ?_⟩
      intro r hr hstarts
      exact (hstarts.eq_of_length_le hr.length_le).symm
    · rename_i hfound
      obtain ⟨n, hn, hlength⟩ := Option.map_eq_some_iff.mp h
      obtain rfl : n = s.length := by simpa using hlength
      have hs := ih hn
      refine ⟨.plain hc hs.met, ?_⟩
      intro r hr hstarts
      cases hr with
      | start => exact absurd (List.isPrefixOf_iff_prefix.mpr hstarts) hfound
      | escape hr => exact absurd rfl hc
      | plain _ hr => exact hs.first r hr hstarts

end Passes

section Openings

variable {mark quote rest s text body after : Text}

private theorem OpensString.isOpeningQuote (h : OpensString mark quote rest) :
    IsOpeningQuote quote := by
  obtain ⟨q, hq, htriple | ⟨hone, -⟩⟩ := h.quote
  · exact ⟨q, hq, Or.inr htriple⟩
  · exact ⟨q, hq, Or.inl hone⟩

private theorem IsOpeningQuote.newline_not_mem (h : IsOpeningQuote quote) : '\n' ∉ quote := by
  obtain ⟨q, hq, rfl | rfl⟩ := h <;> simpa using hq.ne_newline.symm

theorem IsOpeningQuote.getLast?_append (h : IsOpeningQuote quote) (s : Text) :
    (s ++ quote).getLast? ≠ some '\n' := by
  rw [List.getLast?_append_of_ne_nil _ h.ne_nil]
  exact fun hlast => h.newline_not_mem (List.mem_of_getLast? hlast)

private theorem OpensString.of_prefix {rest' : Text} (h : OpensString mark quote rest)
    (hrest : ∀ triple : Text, '\n' ∉ triple → triple <+: rest' → triple <+: rest) :
    OpensString mark quote rest' := by
  obtain ⟨q, hq, htriple | ⟨hone, hnot⟩⟩ := h.quote
  · exact ⟨h.mark, q, hq, Or.inl htriple⟩
  · refine ⟨h.mark, q, hq, Or.inr ⟨hone, fun hstarts => hnot (hrest _ ?_ hstarts)⟩⟩
    simpa using hq.ne_newline.symm

theorem OpensString.append {u : Text} (h : OpensString mark quote (quote ++ (u ++ ['\n'])))
    (z : Text) : OpensString mark quote (quote ++ (u ++ ['\n']) ++ z) := by
  apply h.of_prefix
  intro triple htriple hstarts
  rw [List.append_assoc, List.append_assoc, ← List.append_assoc] at hstarts
  have hshort := (Text.isPrefix_append_cons htriple _ _).mp hstarts
  rw [← List.append_assoc]
  exact hshort.trans (List.prefix_append _ _)

private theorem leadingMark_mem (s : Text) : leadingMark s = [] ∨ leadingMark s ∈ stringMarks := by
  unfold leadingMark
  cases h : stringMarks.find? fun mark =>
      mark.isPrefixOf s && startsWithQuote (s.drop mark.length) with
  | none => exact Or.inl rfl
  | some mark => exact Or.inr (List.mem_of_find?_eq_some h)

private theorem leadingQuote?_rule (h : leadingQuote? s = some quote) :
    ∃ q, IsQuote q ∧ (quote = [q, q, q] ∨ quote = [q] ∧ ¬ [q, q, q] <+: s) := by
  unfold leadingQuote? at h
  split at h
  · exact ⟨'"', Or.inl rfl, Or.inl (Option.some.inj h).symm⟩
  · exact ⟨'\'', Or.inr rfl, Or.inl (Option.some.inj h).symm⟩
  · rename_i hdouble
    refine ⟨'"', Or.inl rfl, Or.inr ⟨(Option.some.inj h).symm, ?_⟩⟩
    rintro ⟨tail, htail⟩
    exact hdouble tail (List.cons.inj htail).2.symm
  · rename_i hsingle
    refine ⟨'\'', Or.inr rfl, Or.inr ⟨(Option.some.inj h).symm, ?_⟩⟩
    rintro ⟨tail, htail⟩
    exact hsingle tail (List.cons.inj htail).2.symm
  · cases h

private theorem exists_opening {n : Nat} (h : stringOpening? s = some (n, quote)) :
    ∃ mark rest, s = mark ++ quote ++ rest ∧ n = (mark ++ quote).length ∧
      OpensString mark quote (quote ++ rest) := by
  obtain ⟨-, rest, hs, hn⟩ := stringOpening?_eq_some h
  refine ⟨leadingMark s, rest, hs, hn, leadingMark_mem s, ?_⟩
  simp only [stringOpening?, Option.map_eq_some_iff, Prod.mk.injEq] at h
  obtain ⟨q, hq, -, rfl⟩ := h
  have hdrop : s.drop (leadingMark s).length = q ++ rest := by
    have hcut := congrArg (List.drop (leadingMark s).length) hs
    rwa [List.append_assoc, List.drop_left] at hcut
  rw [hdrop] at hq
  exact leadingQuote?_rule hq

end Openings

section Lexemes

variable {c : Char} {rest quote : Text} {more : Nat}

private theorem lexeme_eq_string (h : lexeme c rest = .token .string more) :
    ∃ mark quote body after, c :: rest = mark ++ quote ++ body ++ after ∧
      more + 1 = (mark ++ quote ++ body).length ∧
      OpensString mark quote (quote ++ body ++ after) ∧
      closingLength? quote body = some body.length := by
  obtain ⟨n, quote, hopening, hlexeme⟩ := lexeme_eq_stringLexeme (Or.inl ⟨more, h⟩)
  obtain ⟨mark, text, htext, rfl, hopens⟩ := exists_opening hopening
  have hne := hopens.isOpeningQuote.ne_nil
  rw [h, htext, stringLexeme, List.drop_left] at hlexeme
  cases hclose : closingLength? quote text with
  | none =>
    rw [hclose] at hlexeme
    simp only at hlexeme
    split at hlexeme <;> cases hlexeme
  | some n =>
    rw [hclose] at hlexeme
    cases hlexeme
    have hpos := List.length_pos_iff.mpr hne
    have hn : (text.take n).length = n := by
      obtain ⟨body, after, rfl, rfl⟩ := closingLength?_eq_some hclose
      rw [List.take_left]
    refine ⟨mark, quote, text.take n, text.drop n, ?_, ?_, ?_, closingLength?_take hne hclose⟩
    · rw [List.append_assoc, List.take_append_drop]
      exact htext
    · simp only [List.length_append, hn]
      omega
    · rwa [List.append_assoc, List.take_append_drop]

private theorem openString_of_lexeme (h : lexeme c rest = .openString quote) :
    ∃ mark body, c :: rest = mark ++ quote ++ body ∧ OpensString mark quote (quote ++ body) ∧
      closingLength? quote body = none := by
  obtain ⟨n, hopening, hclose⟩ := lexeme_eq_openString h
  obtain ⟨mark, text, htext, rfl, hopens⟩ := exists_opening hopening
  rw [htext, List.drop_left] at hclose
  exact ⟨mark, text, htext, hopens, hclose⟩

end Lexemes

section Rows

variable {tokens more : List Token} {pending : Option OpenString} {st st' : Scanner} {row : Nat}
  {line rest before : Text}

private theorem readsStrings_nil (rest : Text) : ReadsStrings [] none rest :=
  ⟨by simp, by simp⟩

theorem ReadsStrings.append (htokens : ∀ t ∈ tokens, t.kind = .string → t.Complete)
    (h : ReadsStrings more pending rest) : ReadsStrings (tokens ++ more) pending rest := by
  refine ⟨?_, h.unclosed⟩
  intro t ht
  rcases List.mem_append.mp ht with ht | ht
  · exact htokens t ht
  · exact h.complete t ht

private theorem isLiteral_of_closed {mark quote body after : Text}
    (hopens : OpensString mark quote (quote ++ body ++ after))
    (hclose : closingLength? quote body = some body.length) :
    IsLiteral (mark ++ quote ++ body) after := by
  obtain ⟨inner, rfl⟩ := exists_append_quote hclose
  refine ⟨mark, quote, inner, by simp only [List.append_assoc], ?_,
    meetsLast_of_closingLength? hopens.isOpeningQuote hclose⟩
  rwa [← List.append_assoc quote] at hopens

private theorem closingLength?_append_row {quote u : Text} (hquote : IsOpeningQuote quote)
    (hopen : closingLength? quote (u ++ ['\n']) = none) (z : Text) :
    closingLength? quote (u ++ ['\n'] ++ z) =
      (closingLength? quote z).map (· + (u.length + 1)) := by
  rw [← closingLength?_append_line hquote.newline_not_mem hquote.ne_nil hopen, List.append_assoc]
  rfl

private theorem isLiteral_of_closing_row {mark quote u head : Text}
    (hopens : OpensString mark quote (quote ++ (u ++ ['\n'])))
    (hopen : closingLength? quote (u ++ ['\n']) = none)
    (hhead : closingLength? quote head = some head.length) (r : Text) :
    IsLiteral (mark ++ quote ++ (u ++ ['\n']) ++ head) r := by
  have hclose : closingLength? quote (u ++ ['\n'] ++ head) = some (u ++ ['\n'] ++ head).length := by
    rw [closingLength?_append_row hopens.isOpeningQuote hopen, hhead, Option.map_some]
    simp only [List.length_append, List.length_singleton]
    congr 1
    omega
  rw [List.append_assoc _ _ head]
  refine isLiteral_of_closed ?_ hclose
  rw [← List.append_assoc, List.append_assoc _ head]
  exact hopens.append (head ++ r)

private theorem newline_not_mem_of_closed {quote head r : Text} (hquote : IsOpeningQuote quote)
    (hhead : closingLength? quote head = some head.length) (hrow : IsRow (head ++ r) rest) :
    '\n' ∉ head := by
  obtain ⟨inner, rfl⟩ := exists_append_quote hhead
  exact newline_not_mem_of_isRow hrow (hquote.getLast?_append inner)

private theorem getLast?_body {mark quote body : Text} (hquote : IsOpeningQuote quote)
    (h : (mark ++ quote ++ body).getLast? = some '\n') : body.getLast? = some '\n' := by
  cases body with
  | nil =>
    rw [List.append_nil] at h
    exact absurd h (hquote.getLast?_append mark)
  | cons d body => rwa [List.getLast?_append_of_ne_nil _ (List.cons_ne_nil d body)] at h

private theorem readsStrings_scanFrom {column depth : Nat} {y : Text} (hrow : IsRow y rest)
    (hline : line = before ++ y) (hcolumn : column = before.size) :
    ReadsStrings (scanFrom row line column depth y).tokens (scanFrom row line column depth y).pending
      rest := by
  fun_induction scanFrom row line column depth y generalizing before with
  | case1 column depth => exact readsStrings_nil rest
  | case2 column depth c y hspace ih =>
    have hne : '\n' ∉ [c] := by
      simpa using (isSpacing_ne_newline hspace).symm
    refine @ih (before ++ [c]) (IsRow.drop (y := [c]) hrow hne) (by rw [hline]; simp) ?_
    rw [hcolumn]
    simp [isSpacing_utf8Size hspace]
  | case3 column depth c y hspace hlex =>
    refine ⟨?_, by simp⟩
    intro t ht hkind
    rw [List.mem_singleton.mp ht] at hkind
    by_cases hdepth : 0 < depth <;> simp [tokenAt, hdepth] at hkind
  | case4 column depth c y hspace hlex => exact readsStrings_nil rest
  | case5 column depth c y hspace quote hlex =>
    obtain ⟨mark, body, htext, hopens, hclose⟩ := openString_of_lexeme hlex
    refine ⟨by simp, ?_⟩
    rintro p hp
    cases hp
    refine ⟨before, mark, body, hline, hcolumn, htext, hopens, hclose, ?_⟩
    rcases hrow.getLast? (List.cons_ne_nil c y) with hlast | ⟨-, hrest⟩
    · rw [htext] at hlast
      exact Or.inl (getLast?_body hopens.isOpeningQuote hlast)
    · exact Or.inr hrest
  | case6 column depth c y hspace kind more hlex text =>
    rename_i ih
    have hmem := (lexical_lexeme hrow hlex).2
    have hsplit : c :: y = text ++ y.drop more := by simp [text]
    have hline' : line = before ++ text ++ y.drop more := by
      rw [hline, hsplit, List.append_assoc]
    rw [hsplit] at hrow
    have hlater := ih (hrow.drop hmem) hline' (by rw [hcolumn, Text.size_append])
    have hfirst : ∀ t ∈ [tokenAt kind text row column line], t.kind = .string → t.Complete := by
      intro t ht hkind
      rw [List.mem_singleton] at ht
      subst ht
      obtain rfl : kind = .string := hkind
      obtain ⟨mark, quote, body, after, hopening, hlength, hopens, hclose⟩ := lexeme_eq_string hlex
      -- The token is cut off where the closing quote ends.
      have hcut : text.length = (mark ++ quote ++ body).length := by
        have hall := congrArg List.length hopening
        rw [List.length_append, ← hlength, List.length_cons] at hall
        rw [← hlength, List.length_cons, List.length_take]
        omega
      obtain ⟨htext, hafter⟩ := List.append_inj (hsplit.symm.trans hopening) hcut
      refine ⟨before, y.drop more, hline', hcolumn, ?_⟩
      change IsLiteral text (y.drop more)
      rw [htext, hafter]
      exact isLiteral_of_closed hopens hclose
    exact ReadsStrings.append hfirst hlater

private theorem readsStrings_scanInString (st : Scanner) {p : OpenString} (row : Nat)
    (hp : p.Unclosed (line ++ rest)) (hrow : IsRow line rest) (hne : line ≠ []) :
    ReadsStrings (scanInString st p row line).1 (scanInString st p row line).2.pending rest := by
  obtain ⟨before, mark, body, hlines, hcolumn, htext, hopens, hopen, hbody⟩ := hp
  have hquote := hopens.isOpeningQuote
  -- Something follows the rows so far, so they end in a line feed, which no quote and no escape crosses.
  obtain ⟨u, rfl⟩ := List.getLast?_eq_some_iff.mp (hbody.resolve_right (by simp [hne]))
  unfold scanInString
  split
  · rename_i n hn
    obtain ⟨inner, r, rfl, rfl⟩ := closingLength?_eq_some hn
    have hhead := closingLength?_take hquote.ne_nil hn
    rw [List.take_left] at hhead ⊢
    rw [List.drop_left]
    generalize inner ++ p.quote = head at hhead hrow
    have hmem := newline_not_mem_of_closed hquote hhead hrow
    refine ReadsStrings.append ?_ (readsStrings_scanFrom (hrow.drop hmem) rfl rfl)
    intro t ht _
    rw [List.mem_singleton] at ht
    subst ht
    refine ⟨before, r, ?_, hcolumn, ?_⟩
    · simp only [hlines, List.append_assoc]
    · change IsLiteral (p.text ++ head) r
      rw [htext]
      exact isLiteral_of_closing_row hopens hopen hhead r
  · rename_i hnone
    split
    · refine ⟨?_, by simp⟩
      intro t ht hkind
      rw [List.mem_singleton.mp ht] at hkind
      cases hkind
    · refine ⟨by simp, ?_⟩
      rintro p' hp'
      cases hp'
      refine ⟨before, mark, u ++ ['\n'] ++ line, ?_, hcolumn, ?_, ?_, ?_, ?_⟩
      · rw [hlines, List.append_assoc]
      · rw [htext, List.append_assoc]
      · rw [← List.append_assoc]
        exact hopens.append line
      · rw [closingLength?_append_row hquote hopen, hnone]
        rfl
      · rw [List.getLast?_append_of_ne_nil _ hne]
        exact (hrow.getLast? hne).imp_right And.right

private theorem kind_of_mem_emptyLineTokens {column : Nat} {y : Text} {t : Token}
    (h : t ∈ emptyLineTokens row column y line) : t.kind ≠ .string := by
  unfold emptyLineTokens at h
  split at h
  · simp only [List.mem_cons, List.not_mem_nil, or_false] at h
    rcases h with rfl | rfl <;> simp [tokenAt]
  · rw [List.mem_singleton.mp h]
    simp [tokenAt]

private theorem readsStrings_scanFresh (h : scanFresh st row line = .ok (tokens, st'))
    (hpending : st.pending = none) (hrow : IsRow line rest) :
    ReadsStrings tokens st'.pending rest := by
  have hsplit : line = line.takeWhile isSpacing ++ line.drop (line.takeWhile isSpacing).length := by
    conv_lhs => rw [← List.take_append_drop (line.takeWhile isSpacing).length line]
    rw [← List.prefix_iff_eq_take.mp (List.takeWhile_prefix isSpacing)]
  have hlead : '\n' ∉ line.takeWhile isSpacing := fun hmem =>
    isSpacing_ne_newline (List.all_eq_true.mp List.all_takeWhile _ hmem) rfl
  simp only [scanFresh] at h
  split at h
  · cases h
    refine ⟨fun t ht hkind => absurd hkind (kind_of_mem_emptyLineTokens ht), ?_⟩
    simp [hpending]
  · cases hmoves : adjustIndents st.indents row (line.takeWhile isSpacing) line with
    | error cause =>
      rw [hmoves] at h
      cases h
    | ok result =>
      rw [hmoves] at h
      cases h
      have hrest : IsRow (line.drop (line.takeWhile isSpacing).length) rest :=
        IsRow.drop (hsplit ▸ hrow) hlead
      refine ReadsStrings.append ?_ (readsStrings_scanFrom hrest hsplit rfl)
      intro t ht hkind
      rcases kind_of_mem_moves hmoves with hindent | hdedents
      · have hmoved : t ∈ [tokenAt .indent (line.takeWhile isSpacing) row 0 line] := hindent ▸ ht
        rw [List.mem_singleton.mp hmoved] at hkind
        cases hkind
      · rw [hdedents t ht] at hkind
        cases hkind

private theorem readsStrings_scanLine (h : scanLine st row line = .ok (tokens, st'))
    (hst : ∀ p, st.pending = some p → p.Unclosed (line ++ rest)) (hrow : IsRow line rest)
    (hne : line ≠ []) : ReadsStrings tokens st'.pending rest := by
  unfold scanLine at h
  split at h
  · rename_i p hp
    have hreads := readsStrings_scanInString st row (hst p hp) hrow hne
    rwa [Except.ok.inj h] at hreads
  · rename_i hp
    split at h
    · exact readsStrings_scanFresh h hp hrow
    · cases h
      exact readsStrings_scanFrom hrow (List.nil_append line).symm rfl

private theorem readsStrings_scanLines {ls : List Text}
    (h : scanLines st row ls = .ok (tokens, st'))
    (hst : ∀ p, st.pending = some p → p.Unclosed (ls.flatten ++ rest)) (hrows : Rows ls rest) :
    ReadsStrings tokens st'.pending rest := by
  induction ls generalizing st row tokens with
  | nil =>
    cases h
    exact ⟨by simp, hst⟩
  | cons line ls ih =>
    obtain ⟨mid, before, more, hline, hmore, rfl⟩ := scanLines_cons h
    obtain ⟨hne, hrow, hrest⟩ := hrows
    rw [List.flatten_cons, List.append_assoc] at hst
    have hfirst := readsStrings_scanLine hline hst hrow hne
    exact ReadsStrings.append hfirst.complete (ih hmore hfirst.unclosed hrest)

end Rows

section Sources

variable {s text after : Text} {tokens : List Token} {t : Token}

private theorem IsLiteral.of_firstRow (h : IsLiteral text (firstRow after)) :
    IsLiteral text after := by
  obtain ⟨mark, quote, body, htext, hopens, hmeets⟩ := h
  refine ⟨mark, quote, body, htext, hopens.of_prefix ?_, hmeets⟩
  intro triple htriple hstarts
  rcases Text.newline_split after with hafter | ⟨u, v, rfl, hu⟩
  · have hrow := firstRow_append_of_not_mem hafter []
    rw [List.append_nil] at hrow
    rwa [hrow, firstRow, List.append_nil]
  · rw [firstRow_append_of_not_mem hu]
    rw [← List.append_assoc] at hstarts ⊢
    exact ((Text.isPrefix_append_cons htriple _ _).mp hstarts).trans (List.prefix_append _ _)

private theorem IsLiteral.getLast?_ne_newline (h : IsLiteral text after) :
    text.getLast? ≠ some '\n' := by
  obtain ⟨mark, quote, body, rfl, hopens, -⟩ := h
  exact hopens.isOpeningQuote.getLast?_append _

theorem Token.Complete.isLiteral {x y : Text} (h : t.Complete) (hstands : t.Stands x y) :
    IsLiteral t.text y := by
  obtain ⟨before, after, hline, hcolumn, hliteral⟩ := h
  -- Behind the column where the token starts, its rows are its text and the rest of the last row.
  have hsize : Text.size before = (lastRow x).size := by
    rw [← hcolumn, hstands.start, place_column]
  have hrest : t.text ++ after = t.text ++ restOfRow t.text y := by
    rw [← Text.dropBytes_size before (t.text ++ after), ← List.append_assoc, ← hline, hsize,
      hstands.line, List.append_assoc, Text.dropBytes_size]
  rw [List.append_cancel_left hrest, restOfRow, if_neg hliteral.getLast?_ne_newline] at hliteral
  exact hliteral.of_firstRow

/-- Every string token of a source is a complete literal where it stands: marks and a quote, a triple one
if three quotes stand there, a body, and the first quote that one pass over the rest meets. -/
theorem string_tokens_are_literals (h : tokenize s = .ok tokens) (ht : t ∈ tokens)
    (hkind : t.kind = .string) :
    ∃ before after, s = before ++ t.text ++ after ∧ t.start = place before ∧
      IsLiteral t.text after := by
  obtain ⟨scanned, st, hscan, -, -, -, htokens⟩ := tokenize_eq_ok h
  have hreads := readsStrings_scanLines hscan (by simp [Scanner.start]) (rows_rawLines s)
  rw [htokens] at ht
  rcases List.mem_append.mp ht with ht | ht
  · obtain ⟨x, y, hstands, hs⟩ := exists_stands (List.append_nil s.rawLines).symm hscan ht
    exact ⟨x, y, hs, hstands.start, (hreads.complete t ht hkind).isLiteral hstands⟩
  · rcases kind_of_mem_closingTokens ht with hclosing | hclosing | hclosing <;>
      rw [hclosing] at hkind <;> cases hkind

/-- A string over two rows, with a hidden line feed, quotes at the start of a row, and four quotes in a
row of which a backslash hides the first. -/
theorem string_tokens_are_literals_of_rows :
    let s : Text := "s = rb'''it's\\\n'' \\''' ''' ''\n".toList
    ∃ tokens t, tokenize s = .ok tokens ∧ t ∈ tokens ∧ t.kind = .string ∧
      t.text = "rb'''it's\\\n'' \\''' '''".toList ∧
      ∃ before after, s = before ++ t.text ++ after ∧ t.start = place before ∧
        IsLiteral t.text after := by
  intro s
  have hstring : (tokenize s).toOption.bind (fun tokens =>
      tokens[2]?.map fun t => (t.kind, t.text)) =
        some (.string, "rb'''it's\\\n'' \\''' '''".toList) := by
    decide +kernel
  cases htokens : tokenize s with
  | error cause =>
    rw [htokens] at hstring
    cases hstring
  | ok tokens =>
    rw [htokens] at hstring
    obtain ⟨t, ht, hpair⟩ := Option.map_eq_some_iff.mp hstring
    obtain ⟨hkind, htext⟩ := Prod.mk.inj hpair
    have hmem := List.mem_of_getElem? ht
    exact ⟨tokens, t, rfl, hmem, hkind, htext, string_tokens_are_literals htokens hmem hkind⟩

end Sources

end DocstringFormat.Source
