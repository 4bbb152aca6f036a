import DocstringFormat.Proofs.Source.Blanks

/-!
Which strings are reported as docstrings.

What a string documents is read off the tokens before it (`subjectAfter?`).  Of two strings that
both document something, the block of the later one starts after the earlier one
(`docstring_lt_anchor`), so the blocks stand apart from each other and none is left out.  Hence a
string is reported exactly if it could be a docstring and documents something (`mem_reported_iff`).
-/

set_option autoImplicit false

namespace DocstringFormat.Source

open Docstring (Subject)

section Subjects

def assigns (statement : List Token) : Bool :=
  let tokens := statement.filter (fun t => !t.kind.isTrivia)
  !statement.any (fun t => Text.includes Docstring.tripleDouble t.line) &&
    (hasEquals 0 tokens || isDeclaration tokens)

/-- The statement that ends where `before` starts, from its first token on that is no trivia. -/
def lastStatement (before : List Token) : List Token :=
  (before.takeWhile (fun t => t.kind != .newline)).reverse.dropWhile (fun t => t.kind.isTrivia)

/-- What a string documents that stands after some tokens, nearest first. -/
def subjectAfter? (before : List Token) : Option Subject :=
  match before.dropWhile (fun t => t.kind != .dedent && t.kind.isTrivia) with
  | [] => some .wholeModule
  | newline :: rest =>
    if newline.kind ≠ .newline then none
    else
      match definedSubject? ((lastStatement rest).filter (fun t => !t.kind.isTrivia)) with
      | some subject => some subject
      | none => if assigns (lastStatement rest) then some .assignment else none

/-- What the string at a site documents. -/
def Site.subject? (site : Site) : Option Subject :=
  subjectAfter? (site.before.map Numbered.token)

theorem map_statementBefore (before : List Numbered) :
    (statementBefore before).map Numbered.token =
      lastStatement (before.map Numbered.token) := by
  simp only [statementBefore, lineBefore, lastStatement, List.takeWhile_map, ← List.map_reverse,
    List.dropWhile_map]
  rfl

theorem isAssignment_eq (statement : List Numbered) :
    isAssignment statement = assigns (statement.map Numbered.token) := by
  simp only [isAssignment, assigns, significant, List.any_map]
  rfl

theorem subject_block? (site : Site) : site.block?.map Block.subject = site.subject? := by
  have hsignificant : (site.before.map Numbered.token).dropWhile
      (fun t => t.kind != .dedent && t.kind.isTrivia) =
        (fromSignificant site.before).map Numbered.token := by
    rw [fromSignificant, List.dropWhile_map]
    rfl
  rw [Site.block?, Site.subject?, subjectAfter?, hsignificant]
  cases fromSignificant site.before with
  | nil => rfl
  | cons newline rest =>
    simp only [List.map_cons, isAssignment_eq, significant, map_statementBefore]
    by_cases hkind : newline.token.kind = .newline
    · simp only [hkind, ne_eq, not_true_eq_false, if_false]
      cases definedSubject? _ with
      | some subject => rfl
      | none =>
        by_cases hassigns : assigns (lastStatement (rest.map Numbered.token)) = true
        · simp [hassigns]
        · simp [hassigns]
    · simp [hkind]

theorem docstring_block? {site : Site} {b : Block} (h : site.block? = some b) :
    b.docstring = site.index := by
  unfold Site.block? at h
  split at h
  · cases h
    rfl
  · split at h
    · cases h
    · dsimp only at h
      split at h
      · cases h
        rfl
      · split at h
        · cases h
          rfl
        · cases h

end Subjects

section Anchors

variable {n : Numbered} {us vs : List Numbered}

private theorem fromSignificant_append (hn : n.token.kind.isTrivia = false) :
    ∃ us', us' <:+ us ∧ fromSignificant (us ++ n :: vs) = us' ++ n :: vs := by
  refine ⟨us.dropWhile (fun m => m.token.kind != .dedent && m.token.kind.isTrivia),
    List.dropWhile_suffix _, ?_⟩
  rw [fromSignificant, List.dropWhile_append]
  split
  · rename_i hnil
    rw [List.isEmpty_iff.mp hnil, List.nil_append, List.dropWhile_cons_of_neg (by simp [hn])]
  · rfl

theorem statementBefore_of_line (hus : ∀ m ∈ us, m.token.kind ≠ .newline)
    (hkind : n.token.kind ≠ .newline) (hn : n.token.kind.isTrivia = false)
    (hvs : ∀ m ∈ lineBefore vs, m.token.kind.isTrivia = true) :
    statementBefore (us ++ n :: vs) = n :: us.reverse := by
  have hline : lineBefore (us ++ n :: vs) = us ++ n :: lineBefore vs := by
    rw [lineBefore, List.takeWhile_append_of_pos (by simpa using hus),
      List.takeWhile_cons_of_pos (by simpa using hkind)]
    rfl
  have hlayout : ∀ m ∈ (lineBefore vs).reverse, m.token.kind.isTrivia = true := by
    intro m hm
    exact hvs m (List.mem_reverse.mp hm)
  rw [statementBefore, hline, List.reverse_append, List.reverse_cons, List.append_assoc,
    List.dropWhile_append_of_pos hlayout, List.singleton_append,
    List.dropWhile_cons_of_neg (by simp [hn])]

private theorem mem_of_mem_statementBefore {m : Numbered} {before : List Numbered}
    (h : m ∈ statementBefore before) : m ∈ before :=
  ( List.takeWhile_prefix _).subset (List.mem_reverse.mp ((List.dropWhile_suffix _).subset h))

private theorem statementBefore_subset (hus : ∃ m ∈ us, m.token.kind = .newline) :
    (∀ m ∈ statementBefore (us ++ n :: vs), m ∈ us) ∧
      ∃ us', us' <:+ us ∧ beforeStatement (us ++ n :: vs) = us' ++ n :: vs := by
  have hshort : (lineBefore us).length ≠ us.length := by
    intro hlength
    obtain ⟨m, hm, hkind⟩ := hus
    have hall : lineBefore us = us := ( List.takeWhile_prefix _).eq_of_length hlength
    rw [← hall] at hm
    have hne := List.all_eq_true.mp List.all_takeWhile m hm
    simp [hkind] at hne
  have hline : lineBefore (us ++ n :: vs) = lineBefore us := by
    rw [lineBefore, List.takeWhile_append]
    exact if_neg hshort
  have hsubset : ∀ m ∈ statementBefore (us ++ n :: vs), m ∈ us := by
    intro m hm
    rw [statementBefore, hline] at hm
    have hmem := List.mem_reverse.mp ((List.dropWhile_suffix _).subset hm)
    exact ( List.takeWhile_prefix _).subset hmem
  refine ⟨hsubset, us.drop (statementBefore (us ++ n :: vs)).length, List.drop_suffix _ _, ?_⟩
  have hlength : (statementBefore (us ++ n :: vs)).length ≤ us.length := by
    rw [statementBefore, hline]
    calc _ ≤ (lineBefore us).reverse.length := (List.dropWhile_suffix _).length_le
      _ = (lineBefore us).length := List.length_reverse
      _ ≤ us.length := ( List.takeWhile_prefix _).length_le
  rw [beforeStatement, List.drop_append_of_le_length hlength]

private theorem index_lt_decoratedStart (hkind : n.token.kind = .string)
    (hvs : ∀ m ∈ lineBefore vs, m.token.kind.isTrivia = true) {start : Nat}
    (hus : ∀ m ∈ us, n.index < m.index) (hstart : n.index < start) :
    n.index < decoratedStart start (us ++ n :: vs) := by
  have hn : n.token.kind.isTrivia = false := by rw [hkind]; rfl
  generalize hbefore : us ++ n :: vs = before
  induction start, before using decoratedStart.induct generalizing us with
  | case1 start before hnil =>
    rw [decoratedStart, hnil]
    exact hstart
  | case2 start before newline rest hsignificant hnewline hnone =>
    rw [decoratedStart, hsignificant]
    simpa [hnewline, hnone] using hstart
  | case3 start before newline rest hsignificant hnewline first others hfirst hop ih =>
    rw [decoratedStart, hsignificant]
    simp only [hnewline, if_true, hfirst, hop]
    obtain ⟨us', hsuffix, hus'⟩ := @fromSignificant_append n us vs hn
    rw [hbefore, hsignificant] at hus'
    cases us' with
    | nil =>
      obtain ⟨rfl, -⟩ := List.cons.inj hus'
      rw [hkind] at hnewline
      cases hnewline
    | cons u us' =>
      rw [List.cons_append] at hus'
      obtain ⟨rfl, rfl⟩ := List.cons.inj hus'
      have hlater : ∀ m ∈ us', n.index < m.index := fun m hm =>
        hus m (hsuffix.subset (List.mem_cons_of_mem newline hm))
      by_cases hline : ∃ m ∈ us', m.token.kind = .newline
      · obtain ⟨hsubset, us₂, hsuffix₂, hbefore₂⟩ := @statementBefore_subset n us' vs hline
        have hmem : first ∈ us' := hsubset first (by rw [hfirst]; exact List.mem_cons_self)
        exact ih (fun m hm => hlater m (hsuffix₂.subset hm)) (hlater first hmem) hbefore₂.symm
      · -- The statement starts with the string, which is no decorator.
        have hstatement := statementBefore_of_line (fun m hm hm' => hline ⟨m, hm, hm'⟩)
          (by simp [hkind]) hn hvs
        rw [hfirst] at hstatement
        obtain ⟨rfl, -⟩ := List.cons.inj hstatement
        simp [Token.isOp, hkind] at hop
  | case4 start before newline rest hsignificant hnewline first others hfirst hop =>
    rw [decoratedStart, hsignificant]
    simpa [hnewline, hfirst, hop] using hstart
  | case5 start before newline rest hsignificant hnewline =>
    rw [decoratedStart, hsignificant]
    simpa [hnewline] using hstart

theorem no_subject_of_string (hkind : n.token.kind = .string)
    (hus : ∀ m ∈ us, m.token.kind = .comment) :
    definedSubject? (significant (n :: us)) = none ∧ isAssignment (n :: us) = false := by
  have hsignificant : significant (n :: us) = [n.token] := by
    rw [significant, List.map_cons, List.filter_cons_of_pos (by rw [hkind]; rfl)]
    have hnone : (us.map Numbered.token).filter (fun t => !t.kind.isTrivia) = [] := by
      rw [List.filter_eq_nil_iff]
      intro t ht
      obtain ⟨m, hm, rfl⟩ := List.mem_map.mp ht
      rw [hus m hm]
      decide
    rw [hnone]
  rw [isAssignment, hsignificant]
  constructor
  · simp [definedSubject?, endsInColon, Token.isOp, hkind]
  · simp [hasEquals, isDeclaration, hkind]

private theorem index_lt_anchor {site : Site} {b : Block} (hbefore : site.before = us ++ n :: vs)
    (hkind : n.token.kind = .string)
    (hvs : ∀ m ∈ lineBefore vs, m.token.kind.isTrivia = true)
    (hus : ∀ m ∈ us, n.index < m.index)
    (hend : ∀ m, us.reverse.find? (fun m => m.token.kind != .comment) = some m →
      m.token.kind = .newline)
    (hblock : site.block? = some b) : n.index < b.anchor := by
  have hn : n.token.kind.isTrivia = false := by rw [hkind]; rfl
  obtain ⟨us', hsuffix, hsignificant⟩ := @fromSignificant_append n us vs hn
  rw [Site.block?, hbefore, hsignificant] at hblock
  cases us' with
  | nil => simp [hkind] at hblock
  | cons newline us' =>
    have hlater : ∀ m ∈ us', n.index < m.index := fun m hm =>
      hus m (hsuffix.subset (List.mem_cons_of_mem newline hm))
    have hnewline : n.index < newline.index := hus newline (hsuffix.subset List.mem_cons_self)
    simp only [List.cons_append] at hblock
    split at hblock
    · cases hblock
    · by_cases hline : ∃ m ∈ us', m.token.kind = .newline
      · obtain ⟨hsubset, us₂, hsuffix₂, hbefore₂⟩ := @statementBefore_subset n us' vs hline
        have hstart : n.index <
            ((statementBefore (us' ++ n :: vs)).head?.map Numbered.index).getD newline.index := by
          cases hstatement : statementBefore (us' ++ n :: vs) with
          | nil => exact hnewline
          | cons first others =>
            exact hlater first (hsubset first (by rw [hstatement]; exact List.mem_cons_self))
        split at hblock
        · cases hblock
          rw [hbefore₂]
          exact index_lt_decoratedStart hkind hvs (fun m hm => hlater m (hsuffix₂.subset hm)) hstart
        · split at hblock
          · cases hblock
            dsimp only
            cases htarget : (statementBefore (us' ++ n :: vs)).find?
                (fun m => m.token.kind == .name) with
            | none => exact hstart
            | some target => exact hlater target (hsubset target (List.mem_of_find?_eq_some htarget))
          · cases hblock
      · -- The statement before the later string is the earlier one.
        have hline : ∀ m ∈ us', m.token.kind ≠ .newline := fun m hm hm' => hline ⟨m, hm, hm'⟩
        have hcomments : ∀ m ∈ us'.reverse, m.token.kind = .comment := by
          intro m hm
          by_contra hne
          obtain ⟨earlier, hearlier⟩ := hsuffix
          cases hfind : us'.reverse.find? (fun m => m.token.kind != .comment) with
          | none =>
            have hcomment := List.find?_eq_none.mp hfind m hm
            simp [hne] at hcomment
          | some first =>
            have hfirst : us.reverse.find? (fun m => m.token.kind != .comment) = some first := by
              rw [← hearlier, List.reverse_append, List.reverse_cons, List.append_assoc,
                List.find?_append, hfind]
              rfl
            have hmem := List.mem_reverse.mp (List.mem_of_find?_eq_some hfind)
            exact hline first hmem (hend first hfirst)
        have hstatement := statementBefore_of_line hline (by simp [hkind]) hn hvs
        obtain ⟨hdefines, hassigns⟩ := no_subject_of_string hkind hcomments
        simp [hstatement, hdefines, hassigns] at hblock

private theorem decoratedStart_le {start bound : Nat} {before : List Numbered}
    (hstart : start ≤ bound)
    (hbefore : ∀ m ∈ before, m.index ≤ bound) : decoratedStart start before ≤ bound := by
  induction start, before using decoratedStart.induct with
  | case1 start before hnil =>
    rw [decoratedStart, hnil]
    exact hstart
  | case2 start before newline rest hsignificant hnewline hnone =>
    rw [decoratedStart, hsignificant]
    simpa [hnewline, hnone] using hstart
  | case3 start before newline rest hsignificant hnewline first others hfirst hop ih =>
    rw [decoratedStart, hsignificant]
    simp only [hnewline, if_true, hfirst, hop]
    have hrest : ∀ m ∈ rest, m.index ≤ bound := by
      intro m hm
      have hmem : m ∈ fromSignificant before := by
        rw [hsignificant]
        exact List.mem_cons_of_mem newline hm
      exact hbefore m ((List.dropWhile_suffix _).subset hmem)
    apply ih
    · exact hrest first (mem_of_mem_statementBefore (by rw [hfirst]; exact List.mem_cons_self))
    · intro m hm
      exact hrest m ((List.drop_suffix _ _).subset hm)
  | case4 start before newline rest hsignificant hnewline first others hfirst hop =>
    rw [decoratedStart, hsignificant]
    simpa [hnewline, hfirst, hop] using hstart
  | case5 start before newline rest hsignificant hnewline =>
    rw [decoratedStart, hsignificant]
    simpa [hnewline] using hstart

theorem isTrivia_of_block? {site : Site} {b : Block} (h : site.block? = some b) :
    ∀ m ∈ lineBefore site.before, m.token.kind.isTrivia = true := by
  have hsplit : site.before.takeWhile
      (fun m => m.token.kind != .dedent && m.token.kind.isTrivia) ++ fromSignificant site.before =
        site.before := List.takeWhile_append_dropWhile
  have hlayout : ∀ m ∈ site.before.takeWhile
      (fun m => m.token.kind != .dedent && m.token.kind.isTrivia),
        m.token.kind.isTrivia = true := by
    intro m hm
    have hboth := List.all_eq_true.mp List.all_takeWhile m hm
    exact (Bool.and_eq_true_iff.mp hboth).2
  generalize site.before.takeWhile _ = layout at hsplit hlayout
  rw [Site.block?] at h
  cases hsignificant : fromSignificant site.before with
  | nil =>
    rw [hsignificant, List.append_nil] at hsplit
    intro m hm
    rw [← hsplit] at hm
    exact hlayout m (( List.takeWhile_prefix _).subset hm)
  | cons newline rest =>
    rw [hsignificant] at h hsplit
    have hnewline : newline.token.kind = .newline := by
      by_contra hne
      simp [hne] at h
    have hline : lineBefore site.before = layout := by
      rw [← hsplit, lineBefore, List.takeWhile_append_of_pos,
        List.takeWhile_cons_of_neg (by simp [hnewline]), List.append_nil]
      intro m hm
      have htrivia := hlayout m hm
      rw [bne_iff_ne]
      rintro hkind
      rw [hkind] at htrivia
      cases htrivia
    rw [hline]
    exact hlayout

private theorem anchor_le_index {site : Site} {b : Block}
    (hbefore : ∀ m ∈ site.before, m.index ≤ site.index) (hblock : site.block? = some b) :
    b.anchor ≤ site.index := by
  rw [Site.block?] at hblock
  cases hsignificant : fromSignificant site.before with
  | nil =>
    rw [hsignificant] at hblock
    cases hblock
    exact Nat.le_refl _
  | cons newline rest =>
    rw [hsignificant] at hblock
    have hmem : ∀ m ∈ newline :: rest, m.index ≤ site.index := by
      intro m hm
      rw [← hsignificant] at hm
      exact hbefore m ((List.dropWhile_suffix _).subset hm)
    have hstatement : ∀ m ∈ statementBefore rest, m.index ≤ site.index := fun m hm =>
      hmem m (List.mem_cons_of_mem newline (mem_of_mem_statementBefore hm))
    have hstart : ((statementBefore rest).head?.map Numbered.index).getD newline.index ≤
        site.index := by
      cases hfirst : statementBefore rest with
      | nil => exact hmem newline List.mem_cons_self
      | cons first others => exact hstatement first (by rw [hfirst]; exact List.mem_cons_self)
    simp only at hblock
    split at hblock
    · cases hblock
    · split at hblock
      · cases hblock
        apply decoratedStart_le hstart
        intro m hm
        exact hmem m (List.mem_cons_of_mem newline ((List.drop_suffix _ _).subset hm))
      · split at hblock
        · cases hblock
          dsimp only
          cases htarget : (statementBefore rest).find? (fun m => m.token.kind == .name) with
          | none => exact hstart
          | some target => exact hstatement target (List.mem_of_find?_eq_some htarget)
        · cases hblock

end Anchors

section Reported

private theorem index_of_mem_numbered {index : Nat} {tokens : List Token} {n : Numbered}
    (h : n ∈ numbered index tokens) : index ≤ n.index ∧ n.index < index + tokens.length := by
  obtain ⟨us, vs, hsplit⟩ := List.append_of_mem h
  obtain ⟨rfl, hindex⟩ := numbered_eq_append hsplit
  rw [hindex]
  simp

def Site.Precedes (a b : Site) : Prop :=
  ∃ pre, a.after = pre ++ b.token :: b.after ∧
    b.before = (numbered (a.index + 1) pre).reverse ++ ⟨a.index, a.token⟩ :: a.before ∧
    ∀ t ∈ pre, t.kind ≠ .endMarker

private theorem pairwise_precedes {index : Nat} {before : List Numbered} {tokens : List Token}
    (h : ∀ t ∈ tokens.dropLast, t.kind ≠ .endMarker) :
    (sitesFrom index before tokens).Pairwise Site.Precedes := by
  induction tokens generalizing index before with
  | nil => exact List.Pairwise.nil
  | cons t tokens ih =>
    rw [sitesFrom, List.pairwise_cons]
    refine ⟨?_, ?_⟩
    · intro b hb
      obtain ⟨pre, rfl, -, hbefore⟩ := mem_sitesFrom hb
      refine ⟨pre, rfl, hbefore, ?_⟩
      intro u hu
      apply h u
      rw [← List.cons_append, List.dropLast_append_of_ne_nil (by simp)]
      simp [hu]
    · apply ih
      intro u hu
      apply h u
      cases tokens with
      | nil => cases hu
      | cons v tokens => exact List.mem_cons_of_mem t hu

private theorem docstring_lt_anchor {a b : Site} {p q : Block} (hprecedes : a.Precedes b)
    (hcandidate : a.isCandidate = true) (ha : a.block? = some p) (hb : b.block? = some q) :
    p.docstring < q.anchor := by
  obtain ⟨pre, hafter, hbefore, hmarker⟩ := hprecedes
  simp only [Site.isCandidate, Bool.and_eq_true, beq_iff_eq] at hcandidate
  obtain ⟨⟨⟨hkind, -⟩, -⟩, hends⟩ := hcandidate
  rw [docstring_block? ha]
  refine index_lt_anchor hbefore hkind (isTrivia_of_block? ha) ?_ ?_ hb
  · intro m hm
    exact (index_of_mem_numbered (List.mem_reverse.mp hm)).1
  · intro m hm
    rw [List.reverse_reverse] at hm
    have hfind : pre.find? (fun t => t.kind != .comment) = some m.token := by
      rw [← map_token_numbered (a.index + 1) pre, List.find?_map]
      exact congrArg (Option.map Numbered.token) hm
    have hend : m.token.kind = .newline ∨ m.token.kind = .endMarker := by
      rw [endsStatement, hafter, List.find?_append, hfind] at hends
      simpa using hends
    exact hend.resolve_right (hmarker m.token (List.mem_of_find?_eq_some hfind))

private theorem firstOfAnchor_eq_self {last : Option Nat} {bs : List Block}
    (hlast : ∀ k ∈ last, ∀ b ∈ bs, k < b.anchor)
    (h : bs.Pairwise fun p q => p.anchor < q.anchor) : firstOfAnchor last bs = bs := by
  induction bs generalizing last with
  | nil => rfl
  | cons b bs ih =>
    rw [List.pairwise_cons] at h
    have hne : last ≠ some b.anchor := by
      rintro rfl
      exact Nat.lt_irrefl _ (hlast b.anchor rfl b List.mem_cons_self)
    rw [firstOfAnchor, if_neg hne, ih _ h.2]
    rintro k hk p hp
    obtain rfl := Option.mem_some_iff.mp hk
    exact h.1 p hp

variable {s : Text} {tokens : List Token}

theorem exists_lawful (h : tokenize s = .ok tokens) :
    ∃ scanned st rows lastLine, tokens = scanned ++ closingTokens scanned st rows lastLine ∧
      ∀ t ∈ scanned, ∃ depth x gap rest, t.Lawful depth x gap rest := by
  obtain ⟨scanned, st, hscan, -, -, -, htokens⟩ := tokenize_eq_ok h
  rw [← List.take_length (l := s.rawLines)] at hscan
  obtain ⟨ps, tail, pend, hreads, -⟩ := reads_of_scanLines hscan
  have hscanned : scanned = ps.map Piece.token := hreads.tokens
  refine ⟨scanned, st, _, _, htokens, ?_⟩
  intro t ht
  rw [hscanned] at ht
  obtain ⟨p, hp, rfl⟩ := List.mem_map.mp ht
  obtain ⟨qs, rs, rfl⟩ := List.append_of_mem hp
  exact ⟨_, _, _, _, hreads.laid.fits.lawful⟩

theorem kind_ne_endMarker (h : tokenize s = .ok tokens) :
    ∀ t ∈ tokens.dropLast, t.kind ≠ .endMarker := by
  obtain ⟨scanned, st, rows, lastLine, rfl, hscanned⟩ := exists_lawful h
  intro t ht
  rw [closingTokens, ← List.append_assoc, List.dropLast_concat] at ht
  rcases List.mem_append.mp ht with ht | ht
  · intro hkind
    obtain ⟨_, _, _, _, hlawful⟩ := hscanned t ht
    simp [Token.Lawful, Lexical, hkind] at hlawful
  · rcases List.mem_append.mp ht with ht | ht
    · split at ht
      · rw [List.mem_singleton.mp ht]
        simp
      · cases ht
    · obtain ⟨_, -, rfl⟩ := List.mem_map.mp ht
      simp

private theorem pairwise_block? (h : tokenize s = .ok tokens) {R : Block → Block → Prop}
    (hR : ∀ a b p q, Site.Precedes a b → a.isCandidate = true → a.block? = some p →
      b.block? = some q → R p q) :
    ((candidates tokens).filterMap Site.block?).Pairwise R := by
  rw [List.pairwise_filterMap]
  have hpairs : (candidates tokens).Pairwise Site.Precedes :=
    (pairwise_precedes (kind_ne_endMarker h)).filter _
  refine List.Pairwise.imp_of_mem ?_ hpairs
  intro a b ha _ hprecedes p hp q hq
  exact hR a b p q hprecedes (List.mem_filter.mp ha).2 hp hq

theorem anchor_le_docstring {b : Block} (hb : b ∈ (candidates tokens).filterMap Site.block?) :
    b.anchor ≤ b.docstring := by
  obtain ⟨site, hsite, hblock⟩ := List.mem_filterMap.mp hb
  obtain ⟨pre, -, hindex, hbefore⟩ := mem_sites (List.mem_filter.mp hsite).1
  rw [docstring_block? hblock]
  refine anchor_le_index ?_ hblock
  intro m hm
  rw [hbefore] at hm
  have hlt := (index_of_mem_numbered (List.mem_reverse.mp hm)).2
  omega

private theorem pairwise_docstring_lt_anchor (h : tokenize s = .ok tokens) :
    ((candidates tokens).filterMap Site.block?).Pairwise fun p q => p.docstring < q.anchor :=
  pairwise_block? h fun _ _ _ _ => docstring_lt_anchor

theorem blocks_eq (h : tokenize s = .ok tokens) :
    blocks tokens = (candidates tokens).filterMap Site.block? := by
  apply firstOfAnchor_eq_self
  · rintro k hk
    cases hk
  · refine List.Pairwise.imp_of_mem ?_ (pairwise_docstring_lt_anchor h)
    intro p q hp _ hlt
    exact Nat.lt_of_le_of_lt (anchor_le_docstring hp) hlt

theorem site_ext {a b : Site} (ha : a ∈ sites tokens) (hb : b ∈ sites tokens)
    (hindex : a.index = b.index) : a = b := by
  obtain ⟨pre, htokens, hlength, hbefore⟩ := mem_sites ha
  obtain ⟨pre', htokens', hlength', hbefore'⟩ := mem_sites hb
  obtain ⟨rfl, hrest⟩ := List.append_inj (htokens.symm.trans htokens')
    (by rw [← hlength, ← hlength', hindex])
  obtain ⟨htoken, hafter⟩ := List.cons.inj hrest
  obtain ⟨i, before, t, after⟩ := a
  obtain ⟨j, before', u, after'⟩ := b
  simp_all

/-- A string is reported as a docstring exactly if it could be one and documents something. -/
theorem mem_reported_iff (h : tokenize s = .ok tokens) {site : Site} (hsite : site ∈ sites tokens) :
    site.index ∈ (blocks tokens).map Block.docstring ↔
      site.isCandidate = true ∧ site.subject?.isSome = true := by
  rw [blocks_eq h, ← subject_block?, Option.isSome_map]
  constructor
  · intro hmem
    obtain ⟨b, hb, hdocstring⟩ := List.mem_map.mp hmem
    obtain ⟨a, ha, hblock⟩ := List.mem_filterMap.mp hb
    obtain ⟨hmem, hcandidate⟩ := List.mem_filter.mp ha
    rw [docstring_block? hblock] at hdocstring
    obtain rfl := site_ext hmem hsite hdocstring
    exact ⟨hcandidate, by rw [hblock]; rfl⟩
  · rintro ⟨hcandidate, hsome⟩
    obtain ⟨b, hblock⟩ := Option.isSome_iff_exists.mp hsome
    refine List.mem_map.mpr ⟨b, ?_, docstring_block? hblock⟩
    exact List.mem_filterMap.mpr ⟨site, List.mem_filter.mpr ⟨hsite, hcandidate⟩, hblock⟩

end Reported

section Apart

variable {s : Text} {tokens : List Token}

private theorem definedSubject?_ne {statement : List Token} {subject : Subject}
    (h : definedSubject? statement = some subject) : subject ≠ .wholeModule := by
  unfold definedSubject? at h
  split at h
  · cases h
  · split at h
    · cases h
    · split at h
      · cases h
        simp
      · split at h
        · cases h
          simp
        · split at h
          · cases h
            simp
          · cases h

private theorem subject_ne_wholeModule {a b : Site} {q : Block} (hprecedes : a.Precedes b)
    (hcandidate : a.isCandidate = true) (hb : b.block? = some q) : q.subject ≠ .wholeModule := by
  obtain ⟨pre, -, hbefore, -⟩ := hprecedes
  simp only [Site.isCandidate, Bool.and_eq_true, beq_iff_eq] at hcandidate
  have hn : a.token.kind.isTrivia = false := by
    rw [hcandidate.1.1.1]
    rfl
  obtain ⟨us', -, hsignificant⟩ := @fromSignificant_append ⟨a.index, a.token⟩
    (numbered (a.index + 1) pre).reverse a.before hn
  obtain ⟨newline, rest, hcons⟩ : ∃ newline rest, us' ++ ⟨a.index, a.token⟩ :: a.before =
      newline :: rest := List.exists_cons_of_ne_nil (by simp)
  rw [Site.block?, hbefore, hsignificant, hcons] at hb
  dsimp only at hb
  split at hb
  · cases hb
  · split at hb
    · rename_i subject hdefines
      cases hb
      exact definedSubject?_ne hdefines
    · split at hb
      · cases hb
        simp
      · cases hb

/-- Blocks stand apart.  Each starts at or before its docstring, and ends before any later one starts,
so no two have one anchor and no token lies in two of them.  Only the first block can be that of the
module, and none is left out for having the anchor of its neighbour. -/
theorem blocks_stand_apart (h : tokenize s = .ok tokens) :
    (∀ b ∈ blocks tokens, b.anchor ≤ b.docstring) ∧
      (blocks tokens).Pairwise (fun p q => p.docstring < q.anchor) ∧
      ((blocks tokens).map Block.anchor).Nodup ∧
      (blocks tokens).Pairwise (fun p q => ∀ i, p.anchor ≤ i → i ≤ p.docstring →
        ¬ (q.anchor ≤ i ∧ i ≤ q.docstring)) ∧
      (∀ i b, (blocks tokens)[i]? = some b → b.subject = .wholeModule → i = 0) ∧
      blocks tokens = (candidates tokens).filterMap Site.block? := by
  have hfirst : (blocks tokens).Pairwise fun _ q => q.subject ≠ .wholeModule := by
    rw [blocks_eq h]
    exact pairwise_block? h fun _ _ _ _ hprecedes hcandidate _ =>
      subject_ne_wholeModule hprecedes hcandidate
  have hle : ∀ b ∈ blocks tokens, b.anchor ≤ b.docstring := by
    rw [blocks_eq h]
    exact fun b => anchor_le_docstring
  have hlt : (blocks tokens).Pairwise fun p q => p.docstring < q.anchor := by
    rw [blocks_eq h]
    exact pairwise_docstring_lt_anchor h
  refine ⟨hle, hlt, ?_, ?_, ?_, blocks_eq h⟩
  · rw [List.Nodup, List.pairwise_map]
    refine List.Pairwise.imp_of_mem ?_ hlt
    intro p q hp _ hpq
    have hanchor := hle p hp
    omega
  · refine hlt.imp ?_
    intro p q hpq i _ hi
    omega
  · intro i b hb hmodule
    by_contra hi
    obtain ⟨hlength, rfl⟩ := List.getElem?_eq_some_iff.mp hb
    exact List.pairwise_iff_getElem.mp hfirst 0 i (by omega) hlength (by omega) hmodule

/-- A module, a decorated class after a comment, one of its attributes, and a function at the end. -/
theorem blocks_stand_apart_of_class :
    let s : Text :=
      "'''Module.'''\n# note\n@tag\nclass A:\n\n    '''Class.'''\n".toList ++
        "    x: int\n    '''X.'''\ndef f():\n  '''F.'''".toList
    ∃ tokens, tokenize s = .ok tokens ∧
      (blocks tokens).map (fun b => (b.subject, b.anchor, b.docstring)) =
        [(.wholeModule, 0, 0), (.classDef, 4, 13), (.assignment, 15, 19), (.functionDef, 22, 29)] ∧
      (blocks tokens).Pairwise (fun p q => p.docstring < q.anchor) := by
  intro s
  have hblocks : (tokenize s).toOption.map (fun tokens =>
      (blocks tokens).map fun b => (b.subject, b.anchor, b.docstring)) =
        some [(.wholeModule, 0, 0), (.classDef, 4, 13), (.assignment, 15, 19),
          (.functionDef, 22, 29)] := by
    decide +kernel
  cases htokens : tokenize s with
  | error cause =>
    rw [htokens] at hblocks
    cases hblocks
  | ok tokens =>
    rw [htokens] at hblocks
    exact ⟨tokens, rfl, Option.some.inj hblocks, (blocks_stand_apart htokens).2.1⟩

end Apart

end DocstringFormat.Source
