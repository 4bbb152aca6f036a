import DocstringFormat.Proofs.Source.Documented
import DocstringFormat.Proofs.Source.RowTokens

/-!
Blocks and brackets of a token sequence.

Read from left to right, tokens open and close blocks and brackets: an indentation opens a block at
its column, the end of a block closes the innermost one, and operators open and close brackets
(`Nesting.after`).  What the scanner remembers between two lines is what the tokens so far leave open
(`runs_scanLines`), so the columns of the open blocks always increase from zero on, and blocks and
logical lines end outside all brackets (`Nesting.Runs`).  The main result is `nesting_of_tokenize`.
-/

set_option autoImplicit false

namespace DocstringFormat.Source

/-- What tokens leave open: the columns of the blocks, innermost first, and how many brackets. -/
structure Nesting where
  levels : List Nat
  depth : Nat

namespace Nesting

/-- Before the first token only the outermost block is open. -/
def start : Nesting :=
  ⟨[0], 0⟩

/-- What is open after one more token. -/
def after (n : Nesting) (t : Token) : Nesting :=
  match t.kind with
  | .indent => ⟨indentColumn 0 t.text :: n.levels, n.depth⟩
  | .dedent => ⟨n.levels.tail, n.depth⟩
  | .op =>
    if t.text = ['('] ∨ t.text = ['['] ∨ t.text = ['\x7b'] then ⟨n.levels, n.depth + 1⟩
    else if t.text = [')'] ∨ t.text = [']'] ∨ t.text = ['\x7d'] then ⟨n.levels, n.depth - 1⟩
    else n
  | _ => n

end Nesting

/-- What tokens leave open. -/
def nestingOf (tokens : List Token) : Nesting :=
  tokens.foldl Nesting.after .start

/-- The columns of blocks, innermost first: each is right of the one around it, and the outermost is
zero. -/
structure IsStaircase (levels : List Nat) : Prop where
  descends : levels.Pairwise (· > ·)
  bottom : levels.getLast? = some 0

theorem IsStaircase.ne_nil {levels : List Nat} (h : IsStaircase levels) : levels ≠ [] := by
  rintro rfl
  cases h.bottom

namespace Nesting

/-- A token can stand where this much is open: blocks, logical lines and the source end outside all
brackets, and the columns of blocks stay in order. -/
structure Allows (n : Nesting) (t : Token) : Prop where
  outside : t.kind ∈ [TokenKind.indent, .dedent, .newline, .endMarker] → n.depth = 0
  levels : IsStaircase (n.after t).levels

inductive Runs : Nesting → List Token → Nesting → Prop
  | nil {n : Nesting} : Runs n [] n
  | cons {n m : Nesting} {t : Token} {ts : List Token} :
      n.Allows t → Runs (n.after t) ts m → Runs n (t :: ts) m

section Runs

variable {n m k : Nesting} {t : Token} {ts us : List Token}

theorem Runs.append (hts : Runs n ts m) (hus : Runs m us k) : Runs n (ts ++ us) k := by
  induction hts with
  | nil => exact hus
  | cons hallows _ ih => exact .cons hallows (ih hus)

private theorem Runs.exists_append (h : Runs n (ts ++ us) k) : ∃ m, Runs n ts m ∧ Runs m us k := by
  induction ts generalizing n with
  | nil => exact ⟨n, .nil, h⟩
  | cons t ts ih =>
    cases h with
    | cons hallows hrest =>
      obtain ⟨m, hts, hus⟩ := ih hrest
      exact ⟨m, .cons hallows hts, hus⟩

private theorem Runs.foldl_eq (h : Runs n ts m) : ts.foldl after n = m := by
  induction h with
  | nil => rfl
  | cons _ _ ih => exact ih

private theorem Runs.isStaircase (h : Runs n ts m) (hn : IsStaircase n.levels) :
    IsStaircase m.levels := by
  induction h with
  | nil => exact hn
  | cons hallows _ ih => exact ih hallows.levels

private theorem Runs.length_levels (h : Runs n ts m) (hn : IsStaircase n.levels) :
    m.levels.length + ts.countP (fun t => t.kind == .dedent) =
      n.levels.length + ts.countP (fun t => t.kind == .indent) := by
  induction h with
  | nil => rfl
  | @cons n m t ts hallows _ ih =>
    have hrest := ih hallows.levels
    have hne := hallows.levels.ne_nil
    rw [List.countP_cons, List.countP_cons]
    cases hkind : t.kind with
    | dedent =>
      simp only [after, hkind] at hrest hne
      have hlength := List.length_tail (l := n.levels)
      have hpos := List.length_pos_of_ne_nil hne
      simp
      omega
    | indent =>
      simp only [after, hkind, List.length_cons] at hrest
      simp
      omega
    | op =>
      have hlevels : (n.after t).levels = n.levels := by
        simp only [after, hkind]
        split
        · rfl
        · split <;> rfl
      rw [hlevels] at hrest
      simpa using hrest
    | _ =>
      simp only [after, hkind] at hrest
      simpa using hrest

end Runs

section Tokens

variable {n : Nesting} {t : Token} {ts : List Token}

private theorem after_of_plain (h : t.kind ∉ [TokenKind.indent, .dedent, .op]) : n.after t = n := by
  simp only [List.mem_cons, List.not_mem_nil, or_false, not_or] at h
  unfold after
  split <;> simp_all

private theorem Allows.of_plain (hn : IsStaircase n.levels)
    (h : t.kind ∉ [TokenKind.indent, .dedent, .op])
    (houtside : t.kind ∈ [TokenKind.newline, .endMarker] → n.depth = 0) : n.Allows t := by
  constructor
  · intro hkind
    apply houtside
    simp only [List.mem_cons, List.not_mem_nil, or_false, not_or] at h hkind ⊢
    tauto
  · rw [after_of_plain h]
    exact hn

private theorem runs_of_plain (hn : IsStaircase n.levels)
    (h : ∀ t ∈ ts, t.kind ∈ [TokenKind.comment, .nl, .string, .errorToken]) : Runs n ts n := by
  induction ts with
  | nil => exact .nil
  | cons t ts ih =>
    have hkind := h t List.mem_cons_self
    have hplain : t.kind ∉ [TokenKind.indent, .dedent, .op] := by
      simp only [List.mem_cons, List.not_mem_nil, or_false] at hkind
      rcases hkind with hkind | hkind | hkind | hkind <;> simp [hkind]
    refine .cons (.of_plain hn hplain ?_) ?_
    · simp only [List.mem_cons, List.not_mem_nil, or_false] at hkind
      rcases hkind with hkind | hkind | hkind | hkind <;> simp [hkind]
    · rw [after_of_plain hplain]
      exact ih fun u hu => h u (List.mem_cons_of_mem t hu)

end Tokens

end Nesting

open Nesting

section Brackets

variable {c : Char} {rest : Text} {more : Nat}

private theorem operatorLength_of_lexeme (h : lexeme c rest = .token .op more) :
    operatorLength (c :: rest) = more + 1 := by
  unfold lexeme at h
  split at h
  · cases h
  · split at h
    · cases h
    · split at h
      · cases h
      · split at h
        · cases h
        · split at h
          · rw [stringLexeme] at h
            split at h
            · cases h
            · split at h <;> cases h
          · split at h
            · cases h
            · split at h
              · cases h
              · rename_i hlength
                cases h
                exact hlength

private theorem operatorLength_bracket (hc : c ∈ openBrackets ++ closeBrackets) (rest : Text) :
    operatorLength (c :: rest) ≤ 1 := by
  have hfirst : (operators3 ++ operators2).all (fun o =>
      (openBrackets ++ closeBrackets).all (fun c => o.head? ≠ some c) && !o.isEmpty) = true := by
    decide
  have hnone : ∀ o ∈ operators3 ++ operators2, o.isPrefixOf (c :: rest) = false := by
    intro o ho
    have hall := List.all_eq_true.mp hfirst o ho
    cases o with
    | nil => simp at hall
    | cons d o =>
      rw [Bool.and_eq_true] at hall
      have hd := List.all_eq_true.mp hall.1 c hc
      have hne : d ≠ c := by simpa using hd
      simp [List.isPrefixOf, hne]
  have h3 : operators3.any (fun o => o.isPrefixOf (c :: rest)) = false := by
    rw [List.any_eq_false]
    intro o ho
    rw [hnone o (List.mem_append_left _ ho)]
    simp
  have h2 : operators2.any (fun o => o.isPrefixOf (c :: rest)) = false := by
    rw [List.any_eq_false]
    intro o ho
    rw [hnone o (List.mem_append_right _ ho)]
    simp
  unfold operatorLength
  rw [h3, h2]
  simp only [Bool.false_eq_true, if_false]
  split <;> simp

private theorem text_eq_bracket_iff {b : Char} (h : lexeme c rest = .token .op more)
    (hb : b ∈ openBrackets ++ closeBrackets) : c :: rest.take more = [b] ↔ c = b := by
  constructor
  · intro htext
    exact (List.cons.inj htext).1
  · rintro rfl
    have hlength := operatorLength_of_lexeme h
    have hle := operatorLength_bracket hb rest
    have hmore : more = 0 := by omega
    rw [hmore, List.take_zero]

private theorem after_lexeme {kind : TokenKind} {levels : List Nat} {depth row column : Nat}
    {line : Text}
    (h : lexeme c rest = .token kind more) :
    Nesting.after ⟨levels, depth⟩ (tokenAt kind (c :: rest.take more) row column line) =
      ⟨levels, depthAfterToken depth kind c⟩ := by
  by_cases hop : kind = .op
  · subst hop
    have hopen : (c :: rest.take more = ['('] ∨ c :: rest.take more = ['['] ∨
        c :: rest.take more = ['\x7b']) ↔ c ∈ openBrackets := by
      rw [text_eq_bracket_iff h (by decide), text_eq_bracket_iff h (by decide),
        text_eq_bracket_iff h (by decide)]
      simp [openBrackets]
    have hclose : (c :: rest.take more = [')'] ∨ c :: rest.take more = [']'] ∨
        c :: rest.take more = ['\x7d']) ↔ c ∈ closeBrackets := by
      rw [text_eq_bracket_iff h (by decide), text_eq_bracket_iff h (by decide),
        text_eq_bracket_iff h (by decide)]
      simp [closeBrackets]
    simp only [Nesting.after, tokenAt, depthAfterToken, if_true, depthAfter, hopen, hclose]
    split
    · rfl
    · split <;> rfl
  · have hplain : kind ∉ [TokenKind.indent, .dedent, .op] := by
      rcases kind_of_lexeme h with ⟨rfl, -⟩ | hkind
      · simp
      · simp only [List.mem_cons, List.not_mem_nil, or_false] at hkind
        rcases hkind with rfl | rfl | rfl | rfl | rfl <;> simp_all
    rw [after_of_plain hplain, depthAfterToken, if_neg hop]

end Brackets

section Scanned

variable {row : Nat} {line lead : Text} {st st' : Scanner} {tokens : List Token}
  {levels levels' : List Nat}

private theorem runs_scanFrom (hlevels : IsStaircase levels) (row : Nat) (line : Text)
    (column depth : Nat) (y : Text) :
    Runs ⟨levels, depth⟩ (scanFrom row line column depth y).tokens
      ⟨levels, (scanFrom row line column depth y).depth⟩ := by
  fun_induction scanFrom row line column depth y with
  | case1 column depth => exact .nil
  | case2 column depth c y hspace ih => exact ih
  | case3 column depth c y hspace hlex =>
    refine .cons (.of_plain hlevels ?_ ?_) ?_
    · simp only [tokenAt]
      split <;> simp
    · -- The break ends a logical line only outside brackets.
      intro hkind
      simp only [tokenAt] at hkind
      split at hkind
      · simp at hkind
      · rename_i hdepth
        exact Nat.eq_zero_of_not_pos hdepth
    · rw [after_of_plain (by simp only [tokenAt]; split <;> simp)]
      exact .nil
  | case4 column depth c y hspace hlex => exact .nil
  | case5 column depth c y hspace quote hlex => exact .nil
  | case6 column depth c y hspace kind more hlex text ih =>
    have hafter : Nesting.after ⟨levels, depth⟩ (tokenAt kind text row column line) =
        ⟨levels, depthAfterToken depth kind c⟩ := after_lexeme hlex
    refine .cons ⟨?_, ?_⟩ ?_
    · intro hkind
      rcases kind_of_lexeme hlex with ⟨rfl, -⟩ | hmem
      · simp [tokenAt] at hkind
      · simp only [List.mem_cons, List.not_mem_nil, or_false] at hmem
        rcases hmem with rfl | rfl | rfl | rfl | rfl <;> simp [tokenAt] at hkind
    · rw [hafter]
      exact hlevels
    · rw [hafter]
      exact ih

theorem IsStaircase.cons {column : Nat} (hlevels : IsStaircase levels)
    (hcolumn : levels.headD 0 < column) : IsStaircase (column :: levels) := by
  obtain ⟨hdescends, hbottom⟩ := hlevels
  cases levels with
  | nil => cases hbottom
  | cons level levels =>
    refine ⟨List.pairwise_cons.mpr ⟨?_, hdescends⟩, ?_⟩
    · intro other hother
      rcases List.mem_cons.mp hother with rfl | hother
      · exact hcolumn
      · exact Nat.lt_trans (List.rel_of_pairwise_cons hdescends hother) hcolumn
    · rw [List.getLast?_cons_cons]
      exact hbottom

theorem IsStaircase.drop {count : Nat} (hlevels : IsStaircase levels)
    (hcount : count < levels.length) : IsStaircase (levels.drop count) := by
  refine ⟨hlevels.descends.drop, ?_⟩
  rw [List.getLast?_drop, if_neg (by omega)]
  exact hlevels.bottom

private theorem runs_replicate_dedent {t : Token} (ht : t.kind = .dedent)
    (hlevels : IsStaircase levels)
    {count : Nat} (hcount : count < levels.length) :
    Runs ⟨levels, 0⟩ (List.replicate count t) ⟨levels.drop count, 0⟩ := by
  induction count generalizing levels with
  | zero => exact .nil
  | succ count ih =>
    have hafter : Nesting.after ⟨levels, 0⟩ t = ⟨levels.drop 1, 0⟩ := by
      simp only [Nesting.after, ht, List.drop_one]
    have hdrop : IsStaircase (levels.drop 1) := hlevels.drop (by omega)
    rw [List.replicate_succ]
    refine .cons ⟨fun _ => rfl, ?_⟩ ?_
    · rw [hafter]
      exact hdrop
    · rw [hafter, Nat.add_comm, ← List.drop_drop]
      exact ih hdrop (by rw [List.length_drop]; omega)

private theorem head?_drop_takeWhile {column : Nat} (hlevels : IsStaircase levels)
    (hmem : column ∈ levels) :
    (levels.drop (levels.takeWhile (column < ·)).length).head? = some column := by
  have hdescends := hlevels.descends
  clear hlevels
  induction levels with
  | nil => cases hmem
  | cons level levels ih =>
    rw [List.pairwise_cons] at hdescends
    by_cases hlt : column < level
    · have hne : column ≠ level := by omega
      rw [List.takeWhile_cons_of_pos (by simpa using hlt)]
      exact ih ((List.mem_cons.mp hmem).resolve_left hne) hdescends.2
    · rw [List.takeWhile_cons_of_neg (by simpa using hlt)]
      rcases List.mem_cons.mp hmem with rfl | hmem
      · rfl
      · exact absurd (hdescends.1 column hmem) hlt

private theorem runs_adjustIndents (h : adjustIndents levels row lead line = .ok (levels', tokens))
    (hlevels : IsStaircase levels) :
    Runs ⟨levels, 0⟩ tokens ⟨levels', 0⟩ ∧ levels'.head? = some (indentColumn 0 lead) := by
  simp only [adjustIndents] at h
  split at h
  · rename_i hdeeper
    cases h
    refine ⟨.cons ⟨fun _ => rfl, ?_⟩ .nil, rfl⟩
    exact hlevels.cons hdeeper
  · rename_i hdeeper
    split at h
    · split at h
      · cases h
      · rename_i hmem
        cases h
        have hmem := Decidable.not_not.mp hmem
        have hhead := head?_drop_takeWhile hlevels hmem
        refine ⟨?_, hhead⟩
        rw [List.map_const']
        apply runs_replicate_dedent rfl hlevels
        by_contra hlength
        rw [List.drop_eq_nil_of_le (by omega)] at hhead
        cases hhead
    · rename_i hshallower
      cases h
      refine ⟨.nil, ?_⟩
      have hne := hlevels.ne_nil
      cases levels with
      | nil => exact absurd rfl hne
      | cons level levels =>
        simp only [List.headD_cons] at hdeeper hshallower
        rw [List.head?_cons, Nat.le_antisymm (Nat.le_of_not_lt hshallower)
          (Nat.le_of_not_lt hdeeper)]

private theorem runs_scanInString (hst : IsStaircase st.indents) (p : OpenString) (row : Nat)
    (line : Text) :
    Runs ⟨st.indents, st.depth⟩ (scanInString st p row line).1
      ⟨(scanInString st p row line).2.indents, (scanInString st p row line).2.depth⟩ := by
  rw [scanInString]
  split
  · refine Runs.append (runs_of_plain hst ?_) (runs_scanFrom hst _ _ _ _ _)
    simp
  · split
    · apply runs_of_plain hst
      simp
    · exact .nil

private theorem runs_emptyLineTokens {n : Nesting} (hn : IsStaircase n.levels) (row column : Nat)
    (rest line : Text) : Runs n (emptyLineTokens row column rest line) n := by
  apply runs_of_plain hn
  unfold emptyLineTokens
  split <;> simp [tokenAt]

/-- A line that begins a logical line: no string, bracket or backslash is open before it, and there
is code on it. -/
structure BeginsStatement (st : Scanner) (line : Text) : Prop where
  pending : st.pending = none
  depth : st.depth = 0
  continued : st.continued = false
  code : isCodeless (line.drop (line.takeWhile isSpacing).length) = false

private theorem scanLine_of_beginsStatement (hbegins : BeginsStatement st line)
    (h : scanLine st row line = .ok (tokens, st')) :
    ∃ moves column y, adjustIndents st.indents row (line.takeWhile isSpacing) line =
        .ok (st'.indents, moves) ∧
      (tokens, st') = Scanner.after st'.indents moves (scanFrom row line column 0 y) := by
  obtain ⟨hpending, hdepth, hcontinued, hcode⟩ := hbegins
  rw [scanLine, hpending] at h
  simp only [hdepth, hcontinued, Bool.not_false, and_self, if_true, scanFresh, hcode,
    Bool.false_eq_true, if_false] at h
  cases hmoves : adjustIndents st.indents row (line.takeWhile isSpacing) line with
  | error cause =>
    rw [hmoves] at h
    cases h
  | ok result =>
    rw [hmoves] at h
    cases h
    exact ⟨result.2, _, _, rfl, rfl⟩

private theorem runs_scanLine (h : scanLine st row line = .ok (tokens, st'))
    (hst : IsStaircase st.indents) :
    Runs ⟨st.indents, st.depth⟩ tokens ⟨st'.indents, st'.depth⟩ := by
  by_cases hbegins : BeginsStatement st line
  · obtain ⟨moves, column, y, hmoves, hafter⟩ := scanLine_of_beginsStatement hbegins h
    have hruns := (runs_adjustIndents hmoves hst).1
    rw [hbegins.depth, (Prod.mk.inj hafter).1, congrArg Scanner.depth (Prod.mk.inj hafter).2]
    exact hruns.append (runs_scanFrom (hruns.isStaircase hst) _ _ _ _ _)
  · rw [scanLine] at h
    split at h
    · rename_i p _
      have hruns := runs_scanInString hst p row line
      rw [Except.ok.inj h] at hruns
      exact hruns
    · rename_i hpending
      split at h
      · rename_i hfresh
        have hcode : isCodeless (line.drop (line.takeWhile isSpacing).length) = true := by
          by_contra hcode
          exact hbegins ⟨hpending, hfresh.1, by simpa using hfresh.2, by simpa using hcode⟩
        simp only [scanFresh, hcode, if_true] at h
        cases h
        exact runs_emptyLineTokens hst _ _ _ _
      · cases h
        exact runs_scanFrom hst _ _ _ _ _

private theorem runs_scanLines {ls : List Text} (h : scanLines st row ls = .ok (tokens, st'))
    (hst : IsStaircase st.indents) :
    Runs ⟨st.indents, st.depth⟩ tokens ⟨st'.indents, st'.depth⟩ := by
  induction ls generalizing st row tokens with
  | nil =>
    cases h
    exact .nil
  | cons line ls ih =>
    obtain ⟨mid, before, more, hline, hmore, rfl⟩ := scanLines_cons h
    have hbefore := runs_scanLine hline hst
    exact hbefore.append (ih hmore (hbefore.isStaircase hst))

private theorem runs_closingTokens (hst : IsStaircase st.indents) (hdepth : st.depth = 0)
    (tokens : List Token) (rows : Nat) (lastLine : Text) :
    Runs ⟨st.indents, st.depth⟩ (closingTokens tokens st rows lastLine) .start := by
  have hpos : 0 < st.indents.length := List.length_pos_of_ne_nil hst.ne_nil
  have hbottom : st.indents.drop (st.indents.length - 1) = [0] := by
    have hlast := hst.bottom
    rw [List.getLast?_eq_getElem?] at hlast
    obtain ⟨hlt, hzero⟩ := List.getElem?_eq_some_iff.mp hlast
    rw [List.drop_eq_getElem_cons hlt, hzero, List.drop_eq_nil_of_le (by omega)]
  rw [hdepth, closingTokens]
  refine Runs.append (m := ⟨[0], 0⟩) (Runs.append (m := ⟨st.indents, 0⟩) ?_ ?_) ?_
  · split
    · exact .cons (.of_plain hst (by simp) fun _ => rfl) .nil
    · exact .nil
  · rw [List.map_const', List.length_drop, ← hbottom]
    exact runs_replicate_dedent rfl hst (by omega)
  · exact .cons (.of_plain ⟨by simp, rfl⟩ (by simp) fun _ => rfl) .nil

private theorem isStaircase_start : IsStaircase Nesting.start.levels :=
  ⟨by simp [Nesting.start], rfl⟩

private theorem runs_tokenize {s : Text} (h : tokenize s = .ok tokens) :
    Runs .start tokens .start := by
  obtain ⟨scanned, st, hscan, hdepth, -, -, rfl⟩ := tokenize_eq_ok h
  have hscanned : Runs .start scanned ⟨st.indents, st.depth⟩ :=
    runs_scanLines hscan isStaircase_start
  exact hscanned.append (runs_closingTokens (hscanned.isStaircase isStaircase_start) hdepth _ _ _)

end Scanned

section Sources

variable {s : Text} {tokens pre post : List Token}

private theorem Nesting.Runs.nestingOf {k : Nesting} (h : Runs .start (pre ++ post) k) :
    Runs .start pre (nestingOf pre) ∧ Runs (nestingOf pre) post k := by
  obtain ⟨m, hpre, hpost⟩ := h.exists_append
  have hm : Source.nestingOf pre = m := hpre.foldl_eq
  rw [hm]
  exact ⟨hpre, hpost⟩

/-- The scanner reads a line of a source with tokens, knowing what the tokens before it leave open.
-/
structure LineNested (tokens : List Token) (ls : List Text) (line : Text)
    (before more : List Token) (st next : Scanner) : Prop where
  earlier : scanLines .start 1 ls = .ok (before, st)
  here : scanLine st (1 + ls.length) line = .ok (more, next)
  among : before ++ more <+: tokens
  knows : nestingOf before = ⟨st.indents, st.depth⟩
  learns : nestingOf (before ++ more) = ⟨next.indents, next.depth⟩
  /-- The step that opens or closes blocks ends at the column of the line, and the rest of the line
  keeps the blocks. -/
  column : BeginsStatement st line →
    ∃ moves, adjustIndents st.indents (1 + ls.length) (line.takeWhile isSpacing) line =
        .ok (next.indents, moves) ∧ moves <+: more ∧
      next.indents.head? = some (indentColumn 0 (line.takeWhile isSpacing))

private theorem lineNested_of_tokenize (h : tokenize s = .ok tokens) {ls rest : List Text}
    {line : Text}
    (hlines : s.rawLines = ls ++ line :: rest) :
    ∃ before more st next, LineNested tokens ls line before more st next := by
  obtain ⟨scanned, last, hscan, -, -, -, rfl⟩ := tokenize_eq_ok h
  rw [hlines] at hscan
  obtain ⟨st, before, later, hbefore, hlater, rfl⟩ := scanLines_append hscan
  obtain ⟨next, more, others, hline, -, rfl⟩ := scanLines_cons hlater
  have hruns : Runs .start before ⟨st.indents, st.depth⟩ :=
    runs_scanLines hbefore isStaircase_start
  have hst : IsStaircase st.indents := hruns.isStaircase isStaircase_start
  refine ⟨before, more, st, next, hbefore, hline, ?_, hruns.foldl_eq,
    (hruns.append (runs_scanLine hline hst)).foldl_eq, ?_⟩
  · rw [← List.append_assoc, List.append_assoc (before ++ more)]
    exact List.prefix_append _ _
  · intro hbegins
    obtain ⟨moves, column, y, hmoves, hafter⟩ := scanLine_of_beginsStatement hbegins hline
    refine ⟨moves, hmoves, ?_, (runs_adjustIndents hmoves hst).2⟩
    rw [(Prod.mk.inj hafter).1]
    exact List.prefix_append _ _

/-- The tokens of a source nest blocks and brackets as they should. -/
structure NestsProperly (s : Text) (tokens : List Token) : Prop where
  opened : ∀ pre, pre <+: tokens →
    pre.countP (fun t => t.kind == .dedent) ≤ pre.countP (fun t => t.kind == .indent)
  closed : tokens.countP (fun t => t.kind == .dedent) = tokens.countP (fun t => t.kind == .indent)
  /-- At each point the columns of the open blocks increase from zero on. -/
  staircase : ∀ pre, pre <+: tokens → IsStaircase (nestingOf pre).levels
  /-- The scanner's own stack holds these columns before and after each line, and a logical line
  brings it to its column. -/
  lines : ∀ ls line rest, s.rawLines = ls ++ line :: rest →
    ∃ before more st next, LineNested tokens ls line before more st next
  /-- Blocks, logical lines and the source begin and end outside all brackets. -/
  outside : ∀ pre t post, tokens = pre ++ t :: post →
    t.kind ∈ [TokenKind.indent, .dedent, .newline, .endMarker] → (nestingOf pre).depth = 0
  marker : ∃ ts t, tokens = ts ++ [t] ∧ t.kind = .endMarker ∧ ∀ u ∈ ts, u.kind ≠ .endMarker

/-- The scanner nests blocks and brackets properly in every source that has tokens. -/
theorem nesting_of_tokenize (h : tokenize s = .ok tokens) : NestsProperly s tokens := by
  have hruns := runs_tokenize h
  have hlengths := hruns.length_levels isStaircase_start
  constructor
  case opened =>
    rintro pre ⟨post, rfl⟩
    have hpre := hruns.nestingOf.1
    have hlength := hpre.length_levels isStaircase_start
    have hpos := List.length_pos_of_ne_nil (hpre.isStaircase isStaircase_start).ne_nil
    have hstart : Nesting.start.levels.length = 1 := rfl
    omega
  case closed => omega
  case staircase =>
    rintro pre ⟨post, rfl⟩
    exact hruns.nestingOf.1.isStaircase isStaircase_start
  case lines =>
    intro ls line rest hlines
    exact lineNested_of_tokenize h hlines
  case outside =>
    rintro pre t post rfl hkind
    cases hruns.nestingOf.2 with
    | cons hallows _ => exact hallows.outside hkind
  case marker =>
    obtain ⟨t, hlast, hkind⟩ := getLast?_tokens h
    obtain ⟨ts, rfl⟩ := List.getLast?_eq_some_iff.mp hlast
    refine ⟨ts, t, rfl, hkind, ?_⟩
    have hmarker := kind_ne_endMarker h
    rwa [List.dropLast_concat] at hmarker

/-- A tab and eight blanks reach the same column, brackets and strings span lines, and a bracket is
closed that was never opened. -/
theorem nesting_of_tokenize_of_blocks :
    let s : Text :=
      "if a:\n\tif b:\n\t  f([1,\n2\n])\n\n# x\n        '''u\n'''\n)\nelse:\n  z".toList
    ∃ tokens, tokenize s = .ok tokens ∧
      (tokens.filter fun t => t.kind == .indent || t.kind == .dedent).map
          (fun t => (t.kind, t.start.row)) =
        [(.indent, 2), (.indent, 3), (.dedent, 8), (.dedent, 10), (.indent, 12), (.dedent, 13)] ∧
      NestsProperly s tokens := by
  intro s
  have hmoves : (tokenize s).toOption.map (fun tokens =>
      (tokens.filter fun t => t.kind == .indent || t.kind == .dedent).map
        fun t => (t.kind, t.start.row)) =
      some [(.indent, 2), (.indent, 3), (.dedent, 8), (.dedent, 10), (.indent, 12),
        (.dedent, 13)] := by
    decide +kernel
  cases htokens : tokenize s with
  | error cause =>
    rw [htokens] at hmoves
    cases hmoves
  | ok tokens =>
    rw [htokens] at hmoves
    exact ⟨tokens, rfl, Option.some.inj hmoves, nesting_of_tokenize htokens⟩

end Sources

end DocstringFormat.Source
