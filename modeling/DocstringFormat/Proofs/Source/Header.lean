import DocstringFormat.Proofs.Source.Documented

/-!
What the block of a class or a function covers.

The tokens before a docstring are read backwards, logical line by logical line.  A block covers the
header of the definition and the decorators above it, each a logical line with its end and some
layout after it (`LogicalLine`).  Reading stops where no decorator stands right above (`Unattached`).
-/

set_option autoImplicit false

namespace DocstringFormat.Source

open Docstring (Subject)

section Lines

/-- Whether tokens are layout or comments that end no block. -/
def IsLayoutGap (tokens : List Token) : Prop :=
  ∀ t ∈ tokens, t.kind ∈ [TokenKind.indent, .nl, .comment, .encoding]

/-- A logical line from its first token on that is no trivia, with its end and the layout after
it. -/
structure LogicalLine where
  first : Token
  more : List Token
  newline : Token
  gap : List Token
  first_significant : first.kind.isTrivia = false
  unbroken : ∀ t ∈ first :: more, t.kind ≠ .newline
  ended : newline.kind = .newline
  layout : IsLayoutGap gap

namespace LogicalLine

/-- All tokens of a logical line. -/
def tokens (l : LogicalLine) : List Token :=
  l.first :: l.more ++ l.newline :: l.gap

/-- The tokens of a logical line that are no trivia, its end aside. -/
def significant (l : LogicalLine) : List Token :=
  (l.first :: l.more).filter (fun t => !t.kind.isTrivia)

end LogicalLine

/-- Whether tokens are the header of a class or a function: `class`, `def` or `async def` first, and
a colon last. -/
def IsHeader (subject : Subject) (tokens : List Token) : Prop :=
  (∃ t, tokens.getLast? = some t ∧ t.isOp [':'] = true) ∧
    match subject with
    | .classDef => ∃ t, tokens.head? = some t ∧ t.isName "class".toList = true
    | .functionDef =>
      (∃ t, tokens.head? = some t ∧ t.isName "def".toList = true) ∨
        ∃ t u more, tokens = t :: u :: more ∧ t.isName "async".toList = true ∧
          u.isName "def".toList = true
    | _ => False

/-- Whether no decorator stands right above what follows some tokens: there is no logical line, the
end of a block stands between, or the line does not start with `@`. -/
def Unattached (before : List Token) : Prop :=
  IsLayoutGap before ∨
    (∃ earlier dedent gap, before = earlier ++ dedent :: gap ∧ dedent.kind = .dedent ∧
      IsLayoutGap gap) ∨
    ∃ earlier line newline gap, before = earlier ++ (line ++ newline :: gap) ∧
      newline.kind = .newline ∧ IsLayoutGap gap ∧ (∀ t ∈ line, t.kind ≠ .newline) ∧
      (∀ t, earlier.getLast? = some t → t.kind = .newline) ∧
      ∀ t, line.find? (fun t => !t.kind.isTrivia) = some t → t.isOp ['@'] = false

private theorem isHeader_of_definedSubject? {ts : List Token} {subject : Subject}
    (h : definedSubject? ts = some subject) : IsHeader subject ts := by
  unfold definedSubject? at h
  split at h
  · cases h
  · rename_i first rest
    split at h
    · cases h
    · rename_i hcolon
      have hlast : ∃ t, (first :: rest).getLast? = some t ∧ t.isOp [':'] = true := by
        simp only [endsInColon, Bool.not_eq_true', Bool.not_eq_false] at hcolon
        split at hcolon
        · cases hcolon
        · rename_i t ht
          exact ⟨t, ht, hcolon⟩
      split at h
      · rename_i hclass
        cases h
        exact ⟨hlast, first, rfl, hclass⟩
      · split at h
        · rename_i hdef
          cases h
          exact ⟨hlast, Or.inl ⟨first, rfl, hdef⟩⟩
        · split at h
          · rename_i hasync
            cases h
            rw [Bool.and_eq_true] at hasync
            cases rest with
            | nil => exact absurd hasync.2 (by simp)
            | cons second more =>
              exact ⟨hlast, Or.inr ⟨first, second, more, rfl, hasync.1, hasync.2⟩⟩
          · cases h

end Lines

section Backwards

variable {before rest : List Numbered} {newline : Numbered}

/-- Tokens are numbered by how many stand before them, the nearest of them first. -/
def Descends (before : List Numbered) : Prop :=
  ∀ us n vs, before = us ++ n :: vs → n.index = vs.length

theorem Descends.of_append {us vs : List Numbered} (h : Descends (us ++ vs)) : Descends vs := by
  rintro as n bs rfl
  exact h (us ++ as) n bs (List.append_assoc us as (n :: bs)).symm

private theorem descends_numbered (pre : List Token) : Descends (numbered 0 pre).reverse := by
  intro us n vs h
  have hnumbered : numbered 0 pre = vs.reverse ++ n :: us.reverse := by
    rw [← List.reverse_reverse (numbered 0 pre), h]
    simp
  rw [(numbered_eq_append hnumbered).2, Nat.zero_add, List.length_reverse]

theorem exists_fromSignificant (before : List Numbered) :
    ∃ gap, before = gap ++ fromSignificant before ∧
      (∀ n ∈ gap, n.token.kind ∈ [TokenKind.indent, .nl, .comment, .encoding]) ∧
      ∀ n, (fromSignificant before).head? = some n →
        n.token.kind = .dedent ∨ n.token.kind.isTrivia = false := by
  refine ⟨before.takeWhile (fun n => n.token.kind != .dedent && n.token.kind.isTrivia),
    List.takeWhile_append_dropWhile.symm, ?_, ?_⟩
  · intro n hn
    have hboth := List.all_eq_true.mp List.all_takeWhile n hn
    rw [Bool.and_eq_true, bne_iff_ne] at hboth
    cases hkind : n.token.kind <;> simp_all [TokenKind.isTrivia]
  · intro n hn
    have hstop := List.head?_dropWhile_not
      (fun n : Numbered => n.token.kind != .dedent && n.token.kind.isTrivia) before
    rw [fromSignificant] at hn
    rw [hn] at hstop
    by_cases hdedent : n.token.kind = .dedent
    · exact Or.inl hdedent
    · exact Or.inr (by simpa [hdedent] using hstop)

private theorem exists_statementBefore (before : List Numbered) :
    ∃ lead earlier, before = (statementBefore before).reverse ++ (lead ++ earlier) ∧
      beforeStatement before = lead ++ earlier ∧
      (∀ n ∈ lead, n.token.kind.isTrivia = true) ∧
      (∀ n, earlier.head? = some n → n.token.kind = .newline) ∧
      ∀ n ∈ statementBefore before, n.token.kind ≠ .newline := by
  have hline : ∀ n ∈ lineBefore before, n.token.kind ≠ .newline := by
    intro n hn
    simpa using List.all_eq_true.mp List.all_takeWhile n hn
  have hcut : lineBefore before ++ before.dropWhile (fun n => n.token.kind != .newline) = before :=
    List.takeWhile_append_dropWhile
  have hparts : (lineBefore before).reverse.takeWhile (fun n => n.token.kind.isTrivia) ++
      statementBefore before = (lineBefore before).reverse := List.takeWhile_append_dropWhile
  have hlead : ∀ n ∈ (lineBefore before).reverse.takeWhile (fun n => n.token.kind.isTrivia),
      n.token.kind.isTrivia = true := fun n hn => List.all_eq_true.mp List.all_takeWhile n hn
  generalize (lineBefore before).reverse.takeWhile (fun n => n.token.kind.isTrivia) = lead at hparts hlead
  have hreverse : lineBefore before = (statementBefore before).reverse ++ lead.reverse := by
    rw [← List.reverse_append, hparts, List.reverse_reverse]
  have hwhole : before = (statementBefore before).reverse ++
      (lead.reverse ++ before.dropWhile (fun n => n.token.kind != .newline)) := by
    rw [← List.append_assoc, ← hreverse, hcut]
  refine ⟨lead.reverse, before.dropWhile (fun n => n.token.kind != .newline), hwhole, ?_, ?_, ?_, ?_⟩
  · have hdrop := congrArg (List.drop (statementBefore before).reverse.length) hwhole
    rw [List.drop_left, List.length_reverse] at hdrop
    exact hdrop
  · exact fun n hn => hlead n (List.mem_reverse.mp hn)
  · intro n hn
    have hstop := List.head?_dropWhile_not (fun n : Numbered => n.token.kind != .newline) before
    rw [hn] at hstop
    simpa using hstop
  · intro n hn
    apply hline n
    rw [hreverse]
    exact List.mem_append_left _ (List.mem_reverse.mpr hn)

private theorem isTrivia_of_mem_lineBefore (before : List Numbered) :
    ∀ n ∈ lineBefore (beforeStatement before), n.token.kind.isTrivia = true := by
  obtain ⟨lead, earlier, -, hbefore, hlead, hearlier, -⟩ := exists_statementBefore before
  have hunbroken : ∀ n ∈ lead, (n.token.kind != .newline) = true := by
    intro n hn
    have htrivia := hlead n hn
    rw [bne_iff_ne]
    rintro hkind
    rw [hkind] at htrivia
    cases htrivia
  have hline : lineBefore (lead ++ earlier) = lead := by
    rw [lineBefore, List.takeWhile_append_of_pos hunbroken]
    cases earlier with
    | nil => simp
    | cons n earlier => rw [List.takeWhile_cons_of_neg (by simp [hearlier n rfl]), List.append_nil]
  rw [hbefore, hline]
  exact hlead

private theorem isTrivia_head_statementBefore {first : Numbered} {others : List Numbered}
    (h : statementBefore before = first :: others) : first.token.kind.isTrivia = false := by
  have hstop := List.head?_dropWhile_not (fun n : Numbered => n.token.kind.isTrivia)
    (lineBefore before).reverse
  rw [← statementBefore, h] at hstop
  simpa using hstop

end Backwards

section Covered

private theorem isLayoutGap_reverse {gap : List Numbered}
    (h : ∀ n ∈ gap, n.token.kind ∈ [TokenKind.indent, .nl, .comment, .encoding]) :
    IsLayoutGap (gap.reverse.map Numbered.token) := by
  intro t ht
  obtain ⟨n, hn, rfl⟩ := List.mem_map.mp ht
  exact h n (List.mem_reverse.mp hn)

private theorem exists_logicalLine {before rest others : List Numbered} {newline first : Numbered}
    (hnumbers : Descends before) (hsignificant : fromSignificant before = newline :: rest)
    (hnewline : newline.token.kind = .newline) (hstatement : statementBefore rest = first :: others) :
    ∃ (l : LogicalLine) (read : List Numbered), before = read ++ beforeStatement rest ∧
      l.tokens = read.reverse.map Numbered.token ∧ l.first = first.token ∧
      l.significant = significant (first :: others) ∧
      first.index = (beforeStatement rest).length := by
  obtain ⟨gap, hbefore, hgap, -⟩ := exists_fromSignificant before
  obtain ⟨lead, earlier, hrest, hlead, -, -, hunbroken⟩ := exists_statementBefore rest
  rw [← hlead, hstatement] at hrest
  have hwhole : before = (gap ++ newline :: (first :: others).reverse) ++ beforeStatement rest := by
    rw [hbefore, hsignificant]
    conv_lhs => rw [hrest]
    simp
  refine ⟨⟨first.token, others.map Numbered.token, newline.token, gap.reverse.map Numbered.token,
    isTrivia_head_statementBefore hstatement, ?_, hnewline, isLayoutGap_reverse hgap⟩,
    gap ++ newline :: (first :: others).reverse, hwhole, ?_, rfl, rfl, ?_⟩
  · intro t ht
    rw [← List.map_cons] at ht
    obtain ⟨n, hn, rfl⟩ := List.mem_map.mp ht
    exact hunbroken n (hstatement ▸ hn)
  · simp [LogicalLine.tokens]
  · exact hnumbers (gap ++ newline :: others.reverse) first (beforeStatement rest) (by simp [hwhole])

private theorem unattached_of_nil {before : List Numbered} (h : fromSignificant before = []) :
    Unattached (before.reverse.map Numbered.token) := by
  obtain ⟨gap, hbefore, hgap, -⟩ := exists_fromSignificant before
  rw [h, List.append_nil] at hbefore
  exact Or.inl (hbefore ▸ isLayoutGap_reverse hgap)

private theorem unattached_of_line {before rest : List Numbered} {newline : Numbered}
    (hsignificant : fromSignificant before = newline :: rest)
    (hnewline : newline.token.kind = .newline)
    (hfirst : ∀ first, (statementBefore rest).head? = some first →
      first.token.isOp ['@'] = false) :
    Unattached (before.reverse.map Numbered.token) := by
  obtain ⟨gap, hbefore, hgap, -⟩ := exists_fromSignificant before
  obtain ⟨lead, earlier, hrest, -, hlead, hearlier, hunbroken⟩ := exists_statementBefore rest
  rw [hbefore, hsignificant]
  refine Or.inr (Or.inr ⟨earlier.reverse.map Numbered.token,
    lead.reverse.map Numbered.token ++ (statementBefore rest).map Numbered.token, newline.token,
    gap.reverse.map Numbered.token, ?_, hnewline, ?_, ?_, ?_, ?_⟩)
  · conv_lhs => rw [hrest]
    simp
  · exact isLayoutGap_reverse hgap
  · intro t ht
    rcases List.mem_append.mp ht with ht | ht
    · obtain ⟨n, hn, rfl⟩ := List.mem_map.mp ht
      have htrivia := hlead n (List.mem_reverse.mp hn)
      rintro hkind
      rw [hkind] at htrivia
      cases htrivia
    · obtain ⟨n, hn, rfl⟩ := List.mem_map.mp ht
      exact hunbroken n hn
  · intro t ht
    rw [List.getLast?_map, List.getLast?_reverse] at ht
    obtain ⟨n, hn, rfl⟩ := Option.map_eq_some_iff.mp ht
    exact hearlier n hn
  · intro t ht
    have hnone : (lead.reverse.map Numbered.token).find? (fun t => !t.kind.isTrivia) = none := by
      rw [List.find?_eq_none]
      intro u hu
      obtain ⟨n, hn, rfl⟩ := List.mem_map.mp hu
      simp [hlead n (List.mem_reverse.mp hn)]
    rw [List.find?_append, hnone, Option.none_or] at ht
    cases hstatement : statementBefore rest with
    | nil =>
      rw [hstatement] at ht
      cases ht
    | cons first others =>
      have hsignificant := isTrivia_head_statementBefore hstatement
      rw [hstatement, List.map_cons, List.find?_cons_of_pos (by simp [hsignificant])] at ht
      obtain rfl := Option.some.inj ht
      exact hfirst first (by rw [hstatement]; rfl)

private theorem unattached_of_ne_newline {before rest : List Numbered} {n : Numbered}
    (hline : ∀ m ∈ lineBefore before, m.token.kind.isTrivia = true)
    (hsignificant : fromSignificant before = n :: rest) (hn : n.token.kind ≠ .newline) :
    Unattached (before.reverse.map Numbered.token) := by
  obtain ⟨gap, hbefore, hgap, hstop⟩ := exists_fromSignificant before
  rw [hsignificant] at hbefore hstop
  have hunbroken : ∀ m ∈ gap, (m.token.kind != .newline) = true := by
    intro m hm
    have hkind := hgap m hm
    rw [bne_iff_ne]
    rintro heq
    simp [heq] at hkind
  have hmem : n ∈ lineBefore before := by
    rw [hbefore, lineBefore, List.takeWhile_append_of_pos hunbroken,
      List.takeWhile_cons_of_pos (by simpa using hn)]
    simp
  have hdedent : n.token.kind = .dedent := by
    refine (hstop n rfl).resolve_right ?_
    rw [hline n hmem]
    simp
  rw [hbefore]
  exact Or.inr (Or.inl ⟨rest.reverse.map Numbered.token, n.token, gap.reverse.map Numbered.token,
    by simp, hdedent, isLayoutGap_reverse hgap⟩)

private theorem exists_decorators {start : Nat} {before : List Numbered}
    (hnumbers : Descends before)
    (hstart : start = before.length)
    (hline : ∀ n ∈ lineBefore before, n.token.kind.isTrivia = true) :
    ∃ (covered outer : List Numbered) (decorators : List LogicalLine), before = covered ++ outer ∧
      decoratedStart start before = outer.length ∧
      covered.reverse.map Numbered.token = decorators.flatMap LogicalLine.tokens ∧
      (∀ d ∈ decorators, d.first.isOp ['@'] = true) ∧
      Unattached (outer.reverse.map Numbered.token) := by
  induction start, before using decoratedStart.induct with
  | case1 start before hnil =>
    refine ⟨[], before, [], rfl, ?_, rfl, by simp, ?_⟩
    · rw [decoratedStart, hnil]
      exact hstart
    · exact unattached_of_nil hnil
  | case2 start before newline rest hsignificant hnewline hnone =>
    refine ⟨[], before, [], rfl, ?_, rfl, by simp, ?_⟩
    · rw [decoratedStart, hsignificant]
      simpa [hnewline, hnone] using hstart
    · exact unattached_of_line hsignificant hnewline (by simp [hnone])
  | case3 start before newline rest hsignificant hnewline first others hfirst hop ih =>
    obtain ⟨l, read, hread, htokens, hl, -, hindex⟩ :=
      exists_logicalLine hnumbers hsignificant hnewline hfirst
    rw [hread] at hnumbers
    obtain ⟨covered, outer, decorators, hcovered, hanchor, hdecorators, hmarks, hunattached⟩ :=
      ih hnumbers.of_append hindex (isTrivia_of_mem_lineBefore rest)
    refine ⟨read ++ covered, outer, decorators ++ [l], ?_, ?_, ?_, ?_, hunattached⟩
    · rw [hread, hcovered, List.append_assoc]
    · rw [decoratedStart, hsignificant]
      simp only [hnewline, if_true, hfirst, hop]
      exact hanchor
    · rw [List.reverse_append, List.map_append, hdecorators, List.flatMap_append,
        List.flatMap_singleton, htokens]
    · intro d hd
      rcases List.mem_append.mp hd with hd | hd
      · exact hmarks d hd
      · rw [List.mem_singleton.mp hd, hl]
        exact hop
  | case4 start before newline rest hsignificant hnewline first others hfirst hop =>
    refine ⟨[], before, [], rfl, ?_, rfl, by simp, ?_⟩
    · rw [decoratedStart, hsignificant]
      simpa [hnewline, hfirst, hop] using hstart
    · refine unattached_of_line hsignificant hnewline ?_
      rw [hfirst]
      rintro n ⟨⟩
      simpa using hop
  | case5 start before newline rest hsignificant hnewline =>
    refine ⟨[], before, [], rfl, ?_, rfl, by simp, ?_⟩
    · rw [decoratedStart, hsignificant]
      simpa [hnewline] using hstart
    · exact unattached_of_ne_newline hline hsignificant hnewline

private theorem mem_of_mem_firstOfAnchor {last : Option Nat} {bs : List Block} {b : Block}
    (h : b ∈ firstOfAnchor last bs) : b ∈ bs := by
  induction bs generalizing last with
  | nil => cases h
  | cons c bs ih =>
    rw [firstOfAnchor] at h
    split at h
    · exact List.mem_cons_of_mem c (ih h)
    · rcases List.mem_cons.mp h with rfl | h
      · exact List.mem_cons_self
      · exact List.mem_cons_of_mem c (ih h)

private theorem exists_header_of_block? {site : Site} {b : Block} (hblock : site.block? = some b)
    (hsubject : b.subject = .classDef ∨ b.subject = .functionDef) :
    ∃ newline rest first others, fromSignificant site.before = newline :: rest ∧
      newline.token.kind = .newline ∧ statementBefore rest = first :: others ∧
      definedSubject? (significant (first :: others)) = some b.subject ∧
      b.anchor = decoratedStart first.index (beforeStatement rest) := by
  unfold Site.block? at hblock
  split at hblock
  · cases hblock
    rcases hsubject with h | h <;> cases h
  · rename_i newline rest hsignificant
    split at hblock
    · cases hblock
    · rename_i hnewline
      dsimp only at hblock
      split at hblock
      · rename_i subject hdefines
        cases hblock
        cases hstatement : statementBefore rest with
        | nil =>
          rw [hstatement] at hdefines
          cases hdefines
        | cons first others =>
          rw [hstatement] at hdefines
          exact ⟨newline, rest, first, others, hsignificant, by simpa using hnewline, hstatement,
            hdefines, rfl⟩
      · split at hblock
        · cases hblock
          rcases hsubject with h | h <;> cases h
        · cases hblock

/-- The block of a class or a function covers its decorators and its header, logical line by logical
line, and no decorator is left out above. -/
theorem block_covers_definition {tokens : List Token} {b : Block} (hb : b ∈ blocks tokens)
    (hsubject : b.subject = .classDef ∨ b.subject = .functionDef) :
    ∃ (before after : List Token) (docstring : Token) (decorators : List LogicalLine)
        (header : LogicalLine),
      tokens = before ++ (decorators.flatMap LogicalLine.tokens ++ header.tokens) ++
        docstring :: after ∧
      before.length = b.anchor ∧
      (before ++ (decorators.flatMap LogicalLine.tokens ++ header.tokens)).length = b.docstring ∧
      (∀ d ∈ decorators, d.first.isOp ['@'] = true) ∧
      IsHeader b.subject header.significant ∧
      Unattached before := by
  obtain ⟨site, hsite, hblock⟩ := List.mem_filterMap.mp (mem_of_mem_firstOfAnchor hb)
  obtain ⟨pre, htokens, hindex, hbefore⟩ := mem_sites (List.mem_filter.mp hsite).1
  obtain ⟨newline, rest, first, others, hsignificant, hnewline, hstatement, hdefines, hanchor⟩ :=
    exists_header_of_block? hblock hsubject
  have hnumbers : Descends site.before := hbefore ▸ descends_numbered pre
  obtain ⟨header, read, hread, hlast, -, hheader, hstart⟩ :=
    exists_logicalLine hnumbers hsignificant hnewline hstatement
  rw [hread] at hnumbers
  obtain ⟨covered, outer, decorators, hcovered, hdecorated, hdecorators, hmarks, hunattached⟩ :=
    exists_decorators hnumbers.of_append hstart (isTrivia_of_mem_lineBefore rest)
  have hpre : pre = outer.reverse.map Numbered.token ++
      (decorators.flatMap LogicalLine.tokens ++ header.tokens) := by
    rw [← map_token_numbered 0 pre, ← List.reverse_reverse (numbered 0 pre), ← hbefore, hread,
      hcovered, hlast, ← hdecorators]
    simp
  refine ⟨outer.reverse.map Numbered.token, site.after, site.token, decorators, header, ?_, ?_, ?_,
    hmarks, ?_, hunattached⟩
  · rw [htokens, ← hpre]
  · rw [hanchor, hdecorated]
    simp
  · rw [← hpre, docstring_block? hblock, hindex]
  · rw [hheader]
    exact isHeader_of_definedSubject? hdefines

/-- Two decorators with a comment between them, and an import above that is none. -/
theorem block_covers_decorated_function :
    let s : Text :=
      "import os\n@cache\n# note\n@tag(\n  1)\n\nasync def f(\n  a):\n  # body\n\n".toList ++
        "  '''Doc.'''\n".toList
    let b : Block := ⟨.functionDef, 3, 29⟩
    ∃ tokens, tokenize s = .ok tokens ∧ blocks tokens = [b] ∧
      ∃ (before after : List Token) (docstring : Token) (decorators : List LogicalLine)
          (header : LogicalLine),
        tokens = before ++ (decorators.flatMap LogicalLine.tokens ++ header.tokens) ++
          docstring :: after ∧
        before.length = b.anchor ∧
        (before ++ (decorators.flatMap LogicalLine.tokens ++ header.tokens)).length = b.docstring ∧
        (∀ d ∈ decorators, d.first.isOp ['@'] = true) ∧
        IsHeader b.subject header.significant ∧
        Unattached before := by
  intro s b
  have hblocks : (tokenize s).toOption.map blocks = some [b] := by decide +kernel
  cases htokens : tokenize s with
  | error cause =>
    rw [htokens] at hblocks
    cases hblocks
  | ok tokens =>
    rw [htokens] at hblocks
    have hblocks : blocks tokens = [b] := Option.some.inj hblocks
    exact ⟨tokens, rfl, hblocks,
      block_covers_definition (by rw [hblocks]; exact List.mem_singleton_self b) (Or.inr rfl)⟩

end Covered

end DocstringFormat.Source
