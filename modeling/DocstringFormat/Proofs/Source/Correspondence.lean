import DocstringFormat.Proofs.Source.Preserved

/-!
The sites of a formatted source.

Reading a formatted source again gives the tokens of the source, less dropped blank lines, each kept
or replaced (`forall₂_sitesFrom`).  Blank lines are no matter for what a string documents
(`subjectAfter?_insert`), and no assignment appears (`assigns_of_resembles`), so what a string
documents in the formatted source it documented before (`subject?_of_becomes`).  A string that is
rewritten when the formatted source is formatted again was therefore rewritten the first time, unless
dropped blank lines were all that stood between it and the statement before it
(`isRewritten_or_isExposed`).
-/

set_option autoImplicit false

namespace DocstringFormat.Source

section Tokens

variable {ρ : Nat → Revision} {i : Nat} {ts ts' us vs : List Token} {t u : Token}
  {dropped : List Nat}

def Token.Becomes (t : Token) (u : Token) : Revision → Prop
  | .keep => t.Kept u
  | .drop => False
  | .replace text => t.Replaced text u

theorem Token.Becomes.kind {r : Revision} (h : t.Becomes u r) : u.kind = t.kind := by
  cases r with
  | keep => exact Token.Kept.kind h
  | drop => exact h.elim
  | replace text =>
    have hkinds := Token.Replaced.kind h
    rw [hkinds.1, hkinds.2]

theorem revised_cons_iff :
    Revised ρ i (t :: ts) us ↔
      ρ i = .drop ∧ Revised ρ (i + 1) ts us ∨
        ∃ u vs, us = u :: vs ∧ t.Becomes u (ρ i) ∧ Revised ρ (i + 1) ts vs := by
  constructor
  · intro h
    cases h with
    | keep hρ hkept hrest => exact Or.inr ⟨_, _, rfl, by rw [hρ]; exact hkept, hrest⟩
    | drop hρ hrest => exact Or.inl ⟨hρ, hrest⟩
    | replace hρ hreplaced hrest => exact Or.inr ⟨_, _, rfl, by rw [hρ]; exact hreplaced, hrest⟩
  · rintro (⟨hρ, hrest⟩ | ⟨u, vs, rfl, hbecomes, hrest⟩)
    · exact .drop hρ hrest
    · cases hρ : ρ i with
      | keep => exact .keep hρ (by rwa [hρ] at hbecomes) hrest
      | drop =>
        rw [hρ] at hbecomes
        exact hbecomes.elim
      | replace text => exact .replace hρ (by rwa [hρ] at hbecomes) hrest

theorem Revised.exists_left (h : Revised ρ i (ts ++ ts') us) :
    ∃ us₁ us₂, us = us₁ ++ us₂ ∧ Revised ρ i ts us₁ ∧ Revised ρ (i + ts.length) ts' us₂ := by
  induction ts generalizing i us with
  | nil => exact ⟨[], us, rfl, .nil, h⟩
  | cons t ts ih =>
    rw [List.length_cons, Nat.add_comm ts.length, ← Nat.add_assoc]
    rcases revised_cons_iff.mp h with ⟨hρ, hrest⟩ | ⟨u, vs, rfl, hbecomes, hrest⟩
    · obtain ⟨us₁, us₂, rfl, hfirst, hmore⟩ := ih hrest
      exact ⟨us₁, us₂, rfl, .drop hρ hfirst, hmore⟩
    · obtain ⟨us₁, us₂, rfl, hfirst, hmore⟩ := ih hrest
      exact ⟨u :: us₁, us₂, rfl, revised_cons_iff.mpr (Or.inr ⟨u, us₁, rfl, hbecomes, hfirst⟩), hmore⟩

theorem Revised.exists_right (h : Revised ρ i ts (us ++ u :: vs)) :
    ∃ ps t qs, ts = ps ++ t :: qs ∧ Revised ρ i ps us ∧ t.Becomes u (ρ (i + ps.length)) ∧
      Revised ρ (i + ps.length + 1) qs vs := by
  induction ts generalizing i us with
  | nil =>
    generalize hall : us ++ u :: vs = all at h
    cases h
    simp at hall
  | cons t ts ih =>
    have hnumber : ∀ ps : List Token, i + 1 + ps.length = i + (t :: ps).length := by
      intro ps
      rw [List.length_cons, Nat.add_assoc, Nat.add_comm 1]
    rcases revised_cons_iff.mp h with ⟨hρ, hrest⟩ | ⟨w, ws, hall, hbecomes, hrest⟩
    · obtain ⟨ps, t', qs, rfl, hps, ht', hqs⟩ := ih hrest
      rw [hnumber] at ht' hqs
      exact ⟨t :: ps, t', qs, rfl, .drop hρ hps, ht', hqs⟩
    · cases us with
      | nil =>
        obtain ⟨rfl, rfl⟩ := List.cons.inj hall
        exact ⟨[], t, ts, rfl, .nil, hbecomes, hrest⟩
      | cons v us =>
        obtain ⟨rfl, rfl⟩ := List.cons.inj hall
        obtain ⟨ps, t', qs, rfl, hps, ht', hqs⟩ := ih hrest
        rw [hnumber] at ht' hqs
        exact ⟨t :: ps, t', qs, rfl, revised_cons_iff.mpr (Or.inr ⟨v, us, rfl, hbecomes, hps⟩), ht',
          hqs⟩

private theorem Revised.dropped_of_nil (h : Revised ρ i ts []) :
    ∀ j < ts.length, ρ (i + j) = .drop := by
  induction ts generalizing i with
  | nil => exact fun j hj => absurd hj (Nat.not_lt_zero j)
  | cons t ts ih =>
    rcases revised_cons_iff.mp h with ⟨hρ, hrest⟩ | ⟨_, _, hnil, -⟩
    · intro j hj
      cases j with
      | zero => exact hρ
      | succ j =>
        rw [Nat.add_comm j, ← Nat.add_assoc]
        exact ih hrest j (Nat.lt_of_succ_lt_succ hj)
    · cases hnil

private theorem forall₂_of_revised (hdropped : ∀ j, ρ j = .drop ↔ j ∈ dropped)
    (h : Revised ρ i ts us) :
    List.Forall₂ (fun t u => ∃ j, t.Becomes u (ρ j)) (withoutIndices dropped i ts) us := by
  induction ts generalizing i us with
  | nil =>
    cases h
    exact .nil
  | cons t ts ih =>
    rw [withoutIndices]
    rcases revised_cons_iff.mp h with ⟨hρ, hrest⟩ | ⟨u, vs, rfl, hbecomes, hrest⟩
    · rw [if_pos (by simpa using (hdropped i).mp hρ)]
      exact ih hrest
    · have hi : i ∉ dropped := by
        intro hi
        rw [(hdropped i).mpr hi] at hbecomes
        exact hbecomes
      rw [if_neg (by simpa using hi)]
      exact .cons ⟨i, hbecomes⟩ (ih hrest)

end Tokens

section Sites

variable {ρ : Nat → Revision} {pre pre' ts us : List Token} {dropped : List Nat}

structure Site.Becomes (ρ : Nat → Revision) (site site' : Site) : Prop where
  before : Revised ρ 0 (site.before.map Numbered.token).reverse
    (site'.before.map Numbered.token).reverse
  token : site.token.Becomes site'.token (ρ site.index)
  after : Revised ρ (site.index + 1) site.after site'.after

theorem forall₂_sitesFrom (hdropped : ∀ j, ρ j = .drop ↔ j ∈ dropped) (hpre : Revised ρ 0 pre pre')
    (h : Revised ρ pre.length ts us) :
    List.Forall₂ (Site.Becomes ρ)
      (withoutIndices dropped pre.length (sitesFrom pre.length (numbered 0 pre).reverse ts))
      (sitesFrom pre'.length (numbered 0 pre').reverse us) := by
  induction ts generalizing pre pre' us with
  | nil =>
    cases h
    exact .nil
  | cons t ts ih =>
    have hnext : ∀ qs vs, Revised ρ 0 (pre ++ [t]) qs → Revised ρ (pre.length + 1) ts vs →
        List.Forall₂ (Site.Becomes ρ)
          (withoutIndices dropped (pre.length + 1)
            (sitesFrom (pre.length + 1) (⟨pre.length, t⟩ :: (numbered 0 pre).reverse) ts))
          (sitesFrom qs.length (numbered 0 qs).reverse vs) := by
      intro qs vs hqs hvs
      have hrest := @ih (pre ++ [t]) qs vs hqs (by simpa using hvs)
      rwa [List.length_append, List.length_singleton, numbered_concat, List.reverse_append,
        List.reverse_singleton, List.singleton_append, Nat.zero_add] at hrest
    rcases revised_cons_iff.mp h with ⟨hρ, hrest⟩ | ⟨u, vs, rfl, hbecomes, hrest⟩
    · rw [sitesFrom, withoutIndices, if_pos (by simpa using (hdropped _).mp hρ)]
      refine hnext pre' us ?_ hrest
      have hconcat := hpre.append
        (.drop (by rwa [Nat.zero_add]) .nil : Revised ρ (0 + pre.length) [t] [])
      rwa [List.append_nil] at hconcat
    · have hi : pre.length ∉ dropped := by
        intro hi
        rw [(hdropped _).mpr hi] at hbecomes
        exact hbecomes
      have hlast : Revised ρ (0 + pre.length) [t] [u] :=
        revised_cons_iff.mpr (Or.inr ⟨u, [], rfl, by rwa [Nat.zero_add], .nil⟩)
      have hmore := hnext (pre' ++ [u]) vs (hpre.append hlast) hrest
      rw [List.length_append, List.length_singleton, numbered_concat, List.reverse_append,
        List.reverse_singleton, List.singleton_append, Nat.zero_add] at hmore
      rw [sitesFrom, sitesFrom, withoutIndices, if_neg (by simpa using hi)]
      refine .cons ⟨?_, hbecomes, hrest⟩ hmore
      simpa [map_token_numbered] using hpre

end Sites

section Subjects

open Docstring (tripleDouble Subject)

variable {t : Token} {ts us before before' : List Token} {dropped : List Nat}

private theorem includes_of_isBlankLine (h : t.isBlankLine = true) :
    Text.includes tripleDouble t.line = false := by
  simp only [Token.isBlankLine, Bool.and_eq_true] at h
  rw [Bool.eq_false_iff, ne_eq, Docstring.includes_iff]
  intro hinfix
  have hmem : '"' ∈ t.line := hinfix.subset (by simp [tripleDouble])
  have hblank := List.all_eq_true.mp h.2 _ hmem
  exact absurd hblank (by decide)

private theorem assigns_insert (h : t.isBlankLine = true) (a b : List Token) :
    assigns (a ++ t :: b) = assigns (a ++ b) := by
  have hkind := kind_of_isBlankLine h
  simp [assigns, List.filter_append, hkind, TokenKind.isTrivia, includes_of_isBlankLine h]

private theorem lastStatement_insert (h : t.kind = .nl) (a b : List Token) :
    lastStatement (a ++ t :: b) = lastStatement (a ++ b) ∨
      ∃ c d, lastStatement (a ++ t :: b) = c ++ t :: d ∧ lastStatement (a ++ b) = c ++ d := by
  unfold lastStatement
  rw [List.takeWhile_append, List.takeWhile_append, List.takeWhile_cons_of_pos (by simp [h])]
  split
  · rw [List.reverse_append, List.reverse_append, List.reverse_cons, List.append_assoc,
      List.singleton_append, List.dropWhile_append, List.dropWhile_append]
    split
    · left
      rw [List.dropWhile_cons_of_pos (by simp [h, TokenKind.isTrivia])]
    · exact Or.inr ⟨_, _, rfl, rfl⟩
  · exact Or.inl rfl

private theorem subjectAfter?_insert (h : t.isBlankLine = true) (a b : List Token) :
    subjectAfter? (a ++ t :: b) = subjectAfter? (a ++ b) := by
  have hkind := kind_of_isBlankLine h
  have hdrop : (t :: b).dropWhile (fun t => t.kind != .dedent && t.kind.isTrivia) =
      b.dropWhile (fun t => t.kind != .dedent && t.kind.isTrivia) :=
    List.dropWhile_cons_of_pos (by simp [hkind, TokenKind.isTrivia])
  rw [subjectAfter?, subjectAfter?, List.dropWhile_append, List.dropWhile_append, hdrop]
  cases a.dropWhile (fun t => t.kind != .dedent && t.kind.isTrivia) with
  | nil => rfl
  | cons n c =>
    have hfilter : ∀ d e, (d ++ t :: e).filter (fun t => !t.kind.isTrivia) =
        (d ++ e).filter (fun t => !t.kind.isTrivia) := by
      intro d e
      simp [List.filter_append, hkind, TokenKind.isTrivia]
    simp only [List.isEmpty_cons, Bool.false_eq_true, if_false, List.cons_append]
    rcases lastStatement_insert hkind c b with heq | ⟨d, e, heq, heq'⟩
    · rw [heq]
    · rw [heq, heq', hfilter, assigns_insert h]

private theorem subjectAfter?_withoutIndices {i : Nat}
    (h : ∀ a t b, ts = a ++ t :: b → i + a.length ∈ dropped → t.isBlankLine = true)
    (before : List Token) :
    subjectAfter? ((withoutIndices dropped i ts).reverse ++ before) =
      subjectAfter? (ts.reverse ++ before) := by
  induction ts generalizing i before with
  | nil => rfl
  | cons t ts ih =>
    have hrest : ∀ a u b, ts = a ++ u :: b → i + 1 + a.length ∈ dropped → u.isBlankLine = true := by
      rintro a u b rfl hmem
      refine h (t :: a) u b rfl ?_
      rwa [List.length_cons, Nat.add_comm a.length, ← Nat.add_assoc]
    rw [withoutIndices, List.reverse_cons, List.append_assoc, List.singleton_append]
    by_cases hi : i ∈ dropped
    · rw [if_pos (by simpa using hi), ih hrest, subjectAfter?_insert (h [] t ts rfl hi)]
    · rw [if_neg (by simpa using hi), List.reverse_cons, List.append_assoc, List.singleton_append,
        ih hrest]

structure Token.Resembles (t u : Token) : Prop where
  kind : u.kind = t.kind
  text : t.kind ≠ .string → u.text = t.text
  line : u.line = t.line ∨ Text.includes tripleDouble u.line = true

theorem Token.Resembles.isOp {u : Token} (h : t.Resembles u) (s : Text) : u.isOp s = t.isOp s := by
  rw [Token.isOp, Token.isOp, h.kind]
  by_cases hkind : t.kind = .op
  · rw [h.text (by simp [hkind])]
  · rw [beq_false_of_ne hkind, Bool.false_and, Bool.false_and]

theorem Token.Resembles.isName {u : Token} (h : t.Resembles u) (s : Text) : u.isName s = t.isName s := by
  rw [Token.isName, Token.isName, h.kind]
  by_cases hkind : t.kind = .name
  · rw [h.text (by simp [hkind])]
  · rw [beq_false_of_ne hkind, Bool.false_and, Bool.false_and]

private theorem forall₂_dropWhile (p : TokenKind → Bool) (h : List.Forall₂ Token.Resembles ts us) :
    List.Forall₂ Token.Resembles (ts.dropWhile fun t => p t.kind) (us.dropWhile fun t => p t.kind) := by
  induction h with
  | nil => exact .nil
  | @cons t u ts us hfirst hrest ih =>
    rw [List.dropWhile_cons, List.dropWhile_cons, hfirst.kind]
    split
    · exact ih
    · exact .cons hfirst hrest

private theorem forall₂_takeWhile (p : TokenKind → Bool) (h : List.Forall₂ Token.Resembles ts us) :
    List.Forall₂ Token.Resembles (ts.takeWhile fun t => p t.kind) (us.takeWhile fun t => p t.kind) := by
  induction h with
  | nil => exact .nil
  | @cons t u ts us hfirst hrest ih =>
    rw [List.takeWhile_cons, List.takeWhile_cons, hfirst.kind]
    split
    · exact .cons hfirst ih
    · exact .nil

private theorem forall₂_filter (p : TokenKind → Bool) (h : List.Forall₂ Token.Resembles ts us) :
    List.Forall₂ Token.Resembles (ts.filter fun t => p t.kind) (us.filter fun t => p t.kind) := by
  induction h with
  | nil => exact .nil
  | @cons t u ts us hfirst hrest ih =>
    rw [List.filter_cons, List.filter_cons, hfirst.kind]
    split
    · exact .cons hfirst ih
    · exact ih

private theorem endsInColon_of_resembles (h : List.Forall₂ Token.Resembles ts us) :
    endsInColon us = endsInColon ts := by
  induction h with
  | nil => rfl
  | cons hfirst hrest ih =>
    cases hrest with
    | nil => simp [endsInColon, hfirst.isOp]
    | cons _ _ => simpa [endsInColon] using ih

private theorem definedSubject?_of_resembles (h : List.Forall₂ Token.Resembles ts us) :
    definedSubject? us = definedSubject? ts := by
  have hcolon := endsInColon_of_resembles h
  cases h with
  | nil => rfl
  | cons hfirst hrest =>
    rw [definedSubject?, definedSubject?, hcolon, hfirst.isName, hfirst.isName, hfirst.isName]
    cases hrest with
    | nil => rfl
    | cons hsecond _ => rw [List.head?_cons, List.head?_cons, Option.any_some, Option.any_some,
        hsecond.isName]

private theorem hasEquals_of_resembles (h : List.Forall₂ Token.Resembles ts us) (depth : Nat) :
    hasEquals depth us = hasEquals depth ts := by
  induction h generalizing depth with
  | nil => rfl
  | @cons t u ts us hfirst _ ih =>
    rw [hasEquals, hasEquals, hfirst.kind]
    by_cases hkind : t.kind = .op
    · rw [hfirst.text (by simp [hkind])]
      simp only [ih]
    · simp only [ih, hkind, bne_iff_ne, ne_eq, not_false_eq_true, if_true]

private theorem isDeclaration_of_resembles (h : List.Forall₂ Token.Resembles ts us) :
    isDeclaration us = isDeclaration ts := by
  have hcolon := endsInColon_of_resembles h
  cases h with
  | nil => rfl
  | @cons t u ts us hfirst hrest =>
    cases hrest with
    | nil => rfl
    | cons hsecond hmore =>
      rw [isDeclaration, isDeclaration, hcolon, hsecond.isOp, hfirst.kind]
      by_cases hkind : t.kind = .name
      · rw [hfirst.text (by simp [hkind])]
      · simp only [beq_false_of_ne hkind, Bool.false_and]

private theorem assigns_of_resembles (h : List.Forall₂ Token.Resembles ts us)
    (hassigns : assigns us = true) :
    assigns ts = true := by
  have hlines : (∀ u ∈ us, ¬ Text.includes tripleDouble u.line = true) →
      ∀ t ∈ ts, ¬ Text.includes tripleDouble t.line = true := by
    clear hassigns
    induction h with
    | nil => simp
    | cons hfirst _ ih =>
      intro hnone t ht
      rcases List.mem_cons.mp ht with rfl | ht
      · have hline := hnone _ List.mem_cons_self
        rwa [hfirst.line.resolve_right hline] at hline
      · exact ih (fun u hu => hnone u (List.mem_cons_of_mem _ hu)) t ht
  have hsame := forall₂_filter (fun kind => !kind.isTrivia) h
  simp only [assigns, hasEquals_of_resembles hsame, isDeclaration_of_resembles hsame,
    Bool.and_eq_true, Bool.not_eq_true', List.any_eq_false] at hassigns ⊢
  exact ⟨hlines hassigns.1, hassigns.2⟩

private theorem lastStatement_of_resembles (h : List.Forall₂ Token.Resembles before before') :
    List.Forall₂ Token.Resembles (lastStatement before) (lastStatement before') := by
  have htake := forall₂_takeWhile (fun kind => kind != .newline) h
  exact forall₂_dropWhile TokenKind.isTrivia (List.forall₂_reverse_iff.mpr htake)

private theorem subjectAfter?_of_resembles (h : List.Forall₂ Token.Resembles before before')
    {subject : Subject}
    (hsubject : subjectAfter? before' = some subject) : subjectAfter? before = some subject := by
  have hdrop := forall₂_dropWhile (fun kind => kind != .dedent && kind.isTrivia) h
  rw [subjectAfter?] at hsubject ⊢
  generalize before.dropWhile _ = ts at hdrop ⊢
  generalize before'.dropWhile _ = us at hdrop hsubject
  cases hdrop with
  | nil => exact hsubject
  | cons hfirst hrest =>
    dsimp only at hsubject ⊢
    have hstatement := lastStatement_of_resembles hrest
    rw [hfirst.kind, definedSubject?_of_resembles (forall₂_filter (fun kind => !kind.isTrivia) hstatement)]
      at hsubject
    split at hsubject
    · cases hsubject
    · rename_i hkind
      rw [if_neg hkind]
      split at hsubject
      · exact hsubject
      · split at hsubject
        · rename_i hassigns
          rw [if_pos (assigns_of_resembles hstatement hassigns)]
          exact hsubject
        · cases hsubject

end Subjects

section Formatted

open Docstring (tripleDouble Subject)

variable {o : Options} {s : Text} {tokens closing : List Token} {ps : List Piece} {last : Nat}
  {site site' : Site}

theorem revision_eq_drop_iff (h : tokenize s = .ok tokens) (i : Nat) :
    revision o tokens i = .drop ↔ i ∈ droppedBlanks o (blocks tokens) (sites tokens) := by
  constructor
  · intro hdrop
    rcases revision_cases o tokens i with hkeep | ⟨site, -, pre, -, -, -, ⟨-, hi⟩ | ⟨-, hreplace⟩⟩
    · rw [hdrop] at hkeep
      cases hkeep
    · exact hi
    · rw [hdrop] at hreplace
      cases hreplace
  · intro hi
    obtain ⟨pre, t, post, htokens, rfl, hblank, -⟩ := blank_of_dropped h hi
    have hnew : Site.newText o ((blocks tokens).map Block.docstring)
        ⟨pre.length, (numbered 0 pre).reverse, t, post⟩ = t.text := by
      by_contra hne
      have hkind := kind_of_isRewritten (newText_ne hne).1
      rw [kind_of_isBlankLine hblank] at hkind
      cases hkind
    rw [revision_of_split htokens]
    simp [hnew, hi]

/-- No line break is dropped after a token that does not end its row. -/
def KeepsRows (ρ : Nat → Revision) (tokens : List Token) : Prop :=
  ∀ pre t post, tokens = pre ++ t :: post →
    t.kind = .string ∨ t.kind = .comment ∨ t.kind = .indent → ρ (pre.length + 1) ≠ .drop

theorem keepsRows_revision (hcr : '\r' ∉ s) (hend : lastRow s = []) (h : tokenize s = .ok tokens)
    (hahead : Ahead s tokens closing [] [] ps last)
    (hkinds : ∀ t ∈ closing, t.kind ≠ .string ∧ t.kind ≠ .nl ∧ t.kind ≠ .encoding) :
    KeepsRows (revision o tokens) tokens := by
  intro pre t post htokens ht hdrop
  have hρ := revises_revision o h
  obtain ⟨a, u, b, htokens', hlength, hblank, -⟩ := hρ.drop _ hdrop
  have hsplit : pre ++ [t] ++ post = a ++ u :: b := by
    rw [← htokens', htokens, List.append_assoc]
    rfl
  obtain ⟨rfl, rfl⟩ := List.append_inj hsplit (by simp [hlength])
  obtain ⟨qs, p, rs, rfl, hqs, -⟩ :=
    hahead.exists_split hkinds htokens' (Or.inr (kind_of_isBlankLine hblank))
  obtain ⟨qs, qs', rfl, rfl, hlast⟩ := List.map_eq_append_iff.mp hqs
  obtain ⟨q, qs', rfl, rfl, hnil⟩ := List.map_eq_cons_iff.mp hlast
  obtain rfl := List.map_eq_nil_iff.mp hnil
  rw [List.append_assoc] at hahead
  have hpiece := hahead.run
  have hindex : ([] ++ qs.map Piece.token ++ [q.token]).length = (qs.map Piece.token).length + 1 := by
    simp
  have hdropped : ∀ i ∈ [([] ++ qs.map Piece.token ++ [q.token]).length], IsBlankAt tokens i := by
    intro i hi
    rw [List.mem_singleton.mp hi, hindex]
    exact hρ.drop _ hdrop
  obtain ⟨-, hrow, -⟩ := hpiece.step.blank hcr hend hdropped (by simp)
  -- The row of the token is not at its end.
  have hlawful := hpiece.fits.lawful
  have htext : q.token.text ≠ [] ∧ q.token.text.getLast? ≠ some '\n' := by
    rw [Token.Lawful] at hlawful
    rcases ht with hkind | hkind | hkind <;> rw [hkind] at hlawful
    · obtain ⟨hne, c, hc, hquote⟩ := hlawful
      exact ⟨hne, by rw [hc]; simpa using hquote.ne_newline⟩
    · obtain ⟨hne, -, hmem⟩ := hlawful
      exact ⟨hne, fun hc => hmem (List.mem_of_getLast? hc)⟩
    · obtain ⟨hne, hspacing, -⟩ := hlawful
      exact ⟨hne, fun hc => isSpacing_ne_newline (hspacing _ (List.mem_of_getLast? hc)) rfl⟩
  rw [Piece.text, ← List.append_assoc] at hrow
  exact lastRow_append_ne_nil _ htext.1 htext.2 hrow

private theorem includes_of_replace {i : Nat} {text : Text}
    (h : revision o tokens i = .replace text) :
    Text.includes tripleDouble text = true := by
  obtain ⟨site, -, -, -, -, -, hne, rfl⟩ := exists_of_replace h
  obtain ⟨opening, -, body, hbody⟩ :=
    exists_canonical_of_changed (Text.isBlank_leadingBlanks _) (newText_ne hne).2 hne
  rw [Docstring.includes_iff, hbody, ← List.append_assoc]
  exact (List.suffix_append _ _).isInfix

private theorem resembles_of_becomes {t u : Token} {i : Nat}
    (h : t.Becomes u (revision o tokens i)) :
    t.Resembles u := by
  have hkind := h.kind
  cases hrevision : revision o tokens i with
  | keep =>
    rw [hrevision] at h
    have hkept : t.Kept u := h
    exact ⟨hkind, fun _ => hkept.text, hkept.line.imp Token.Moved.line And.right⟩
  | drop =>
    rw [hrevision] at h
    exact h.elim
  | replace text =>
    rw [hrevision] at h
    have hreplaced : t.Replaced text u := h
    refine ⟨hkind, fun hne => absurd hreplaced.kind.1 hne, Or.inr ?_⟩
    obtain ⟨lead, rest, -, -, hline⟩ := hreplaced.line
    have hinfix := (Docstring.includes_iff _ _).mp (includes_of_replace hrevision)
    rw [Docstring.includes_iff, hline]
    exact hinfix.trans ⟨lead, rest, by simp⟩

/-- What a string documents after formatting it documented before. -/
theorem subject?_of_becomes (h : tokenize s = .ok tokens) (hsite : site ∈ sites tokens)
    (hbecomes : site.Becomes (revision o tokens) site') {subject : Subject}
    (hsubject : site'.subject? = some subject) : site.subject? = some subject := by
  obtain ⟨pre, htokens, -, hbefore⟩ := mem_sites hsite
  have htokensBefore : site.before.map Numbered.token = pre.reverse := by
    rw [hbefore, List.map_reverse, map_token_numbered]
  have hrevised := forall₂_of_revised (revision_eq_drop_iff h) hbecomes.before
  have hresembles := hrevised.imp fun t u ⟨_, ht⟩ => resembles_of_becomes ht
  rw [← List.forall₂_reverse_iff, List.reverse_reverse, htokensBefore, List.reverse_reverse]
    at hresembles
  have hblank : ∀ a t b, pre = a ++ t :: b →
      0 + a.length ∈ droppedBlanks o (blocks tokens) (sites tokens) → t.isBlankLine = true := by
    rintro a t b rfl hmem
    rw [Nat.zero_add] at hmem
    have hsplit : tokens = a ++ t :: (b ++ site.token :: site.after) := by
      rw [htokens]
      simp
    exact ((blank_of_dropped h hmem).of_split hsplit).1
  have hwithout := subjectAfter?_withoutIndices hblank []
  rw [List.append_nil, List.append_nil] at hwithout
  rw [Site.subject?, htokensBefore, ← hwithout]
  exact subjectAfter?_of_resembles hresembles hsubject

variable {ρ : Nat → Revision} {pre ts us : List Token}

theorem comments_of_revised {cs : List Token} (hrows : KeepsRows ρ tokens)
    (htokens : tokens = pre ++ ts) (hfirst : ρ pre.length ≠ .drop)
    (hcs : ∀ c ∈ cs, c.kind = .comment) (h : Revised ρ pre.length ts (cs ++ us)) :
    ∃ bs rest, ts = bs ++ rest ∧ (∀ b ∈ bs, b.kind = .comment) ∧
      Revised ρ (pre.length + bs.length) rest us ∧ ρ (pre.length + bs.length) ≠ .drop := by
  induction cs generalizing pre ts with
  | nil => exact ⟨[], ts, rfl, by simp, h, hfirst⟩
  | cons c cs ih =>
    cases ts with
    | nil => cases h
    | cons t ts =>
      rcases revised_cons_iff.mp h with ⟨hρ, -⟩ | ⟨u, vs, hall, hbecomes, hrest⟩
      · exact absurd hρ hfirst
      · obtain ⟨rfl, rfl⟩ := List.cons.inj hall
        have hkind : t.kind = .comment := hbecomes.kind.symm.trans (hcs c List.mem_cons_self)
        have hnext := hrows pre t ts htokens (Or.inr (Or.inl hkind))
        obtain ⟨bs, rest, rfl, hbs, hrevised, hdrop⟩ := @ih (pre ++ [t]) ts (by simp [htokens])
          (by simpa using hnext) (fun d hd => hcs d (List.mem_cons_of_mem c hd))
          (by simpa using hrest)
        have hlength : (pre ++ [t]).length + bs.length = pre.length + (t :: bs).length := by
          simp only [List.length_append, List.length_cons, List.length_nil]
          omega
        rw [hlength] at hrevised hdrop
        exact ⟨t :: bs, rest, rfl, by simpa [hkind] using hbs, hrevised, hdrop⟩

private theorem endsStatement_append {cs : List Token} (hcs : ∀ c ∈ cs, c.kind = .comment)
    (rest : List Token) : endsStatement (cs ++ rest) = endsStatement rest := by
  have hfind : cs.find? (fun t => t.kind != .comment) = none := by
    rw [List.find?_eq_none]
    intro c hc
    simp [hcs c hc]
  rw [endsStatement, endsStatement, List.find?_append, hfind, Option.none_or]

private theorem endsStatement_of_revised (hrows : KeepsRows ρ tokens) (htokens : tokens = pre ++ ts)
    (hfirst : ρ pre.length ≠ .drop) (h : Revised ρ pre.length ts us)
    (hends : endsStatement us = true) : endsStatement ts = true := by
  have hcomments : ∀ c ∈ us.takeWhile (fun t => t.kind == .comment), c.kind = .comment := by
    intro c hc
    simpa using List.all_eq_true.mp List.all_takeWhile c hc
  rw [← List.takeWhile_append_dropWhile (p := fun t => t.kind == .comment) (l := us)] at h hends
  obtain ⟨bs, rest, rfl, hbs, hrevised, hdrop⟩ :=
    comments_of_revised hrows htokens hfirst hcomments h
  have hhead := List.head?_dropWhile_not (fun t : Token => t.kind == .comment) us
  rw [endsStatement_append hcomments] at hends
  rw [endsStatement_append hbs]
  generalize us.dropWhile _ = vs at hrevised hends hhead
  cases rest with
  | nil => rfl
  | cons t rest =>
    rcases revised_cons_iff.mp hrevised with ⟨hρ, -⟩ | ⟨u, vs, rfl, hbecomes, -⟩
    · exact absurd hρ hdrop
    · have hkind := hbecomes.kind
      have hne : u.kind ≠ .comment := by simpa using hhead
      rw [endsStatement, List.find?_cons_of_pos (by simpa using hne)] at hends
      rw [endsStatement, List.find?_cons_of_pos (by simpa [← hkind] using hne)]
      dsimp only at hends ⊢
      rwa [← hkind]

theorem kind_of_mem_revised (hρ : Revises ρ tokens) {post : List Token}
    (htokens : tokens = pre ++ ts ++ post) (h : Revised ρ pre.length ts us) {t : Token}
    (ht : t ∈ ts) : t.kind = .nl ∨ ∃ u ∈ us, u.kind = t.kind := by
  obtain ⟨a, b, rfl⟩ := List.append_of_mem ht
  obtain ⟨us₁, us₂, rfl, -, hrest⟩ := h.exists_left
  have hindex : (pre ++ a).length = pre.length + a.length := List.length_append
  rw [← hindex] at hrest
  rcases revised_cons_iff.mp hrest with ⟨hdrop, -⟩ | ⟨u, vs, rfl, hbecomes, -⟩
  · have hsplit : tokens = (pre ++ a) ++ t :: (b ++ post) := by
      rw [htokens]
      simp
    exact Or.inl (kind_of_isBlankLine ((hρ.drop _ hdrop).of_split hsplit).1)
  · exact Or.inr ⟨u, by simp, hbecomes.kind⟩

end Formatted

section Rewritten

variable {o : Options} {s out : Text} {tokens tokens' : List Token} {site site' : Site}

private theorem moved_of_becomes (hbecomes : site.Becomes (revision o tokens) site')
    (hkind : site.token.kind = .string) (hkeep : revision o tokens site.index = .keep) :
    site.token.Moved site'.token := by
  have hkept := hbecomes.token
  rw [hkeep] at hkept
  have hline := Token.Kept.line hkept
  rw [hkind] at hline
  exact hline.resolve_right (by simp)

private theorem isCandidate_of_becomes (hrows : KeepsRows (revision o tokens) tokens)
    (hsite : site ∈ sites tokens) (hbecomes : site.Becomes (revision o tokens) site')
    (hkeep : revision o tokens site.index = .keep) (h : site'.isCandidate = true) :
    site.isCandidate = true := by
  obtain ⟨pre, htokens, hindex, -⟩ := mem_sites hsite
  simp only [Site.isCandidate, Bool.and_eq_true, beq_iff_eq] at h ⊢
  obtain ⟨⟨⟨hkind, hliteral⟩, hline⟩, hends⟩ := h
  have hstring : site.token.kind = .string := hbecomes.token.kind.symm.trans hkind
  have hmoved := moved_of_becomes hbecomes hstring hkeep
  have hnext := hrows pre site.token site.after htokens (Or.inl hstring)
  have hafter := hbecomes.after
  rw [hindex] at hafter
  refine ⟨⟨⟨hstring, hmoved.text ▸ hliteral⟩, ?_⟩, ?_⟩
  · rwa [Token.firstLine, hmoved.line] at hline
  · refine @endsStatement_of_revised tokens (revision o tokens) (pre ++ [site.token]) site.after
      site'.after hrows (by simp [← htokens]) (by simpa using hnext) (by simpa using hafter) hends

private theorem inScope_of_moved {t u : Token} (hrange : o.lineRange = none) (h : t.Moved u) :
    inScope o u = inScope o t := by
  have hlength : u.stop.row + 1 - u.start.row = t.stop.row + 1 - t.start.row := by
    have hrows := h.rows
    omega
  simp only [inScope, inRange, hrange, hasLength, hlength]

private theorem isRewritten_of_replace {text : Text} (hsite : site ∈ sites tokens)
    (h : revision o tokens site.index = .replace text) :
    site.IsRewritten o ((blocks tokens).map Block.docstring) := by
  obtain ⟨site₀, hsite₀, -, -, -, hindex, hne, -⟩ := exists_of_replace h
  obtain rfl := site_ext hsite₀ hsite hindex
  exact (newText_ne hne).1

/-- Dropped blank lines stand before the string at a site, and the end of a logical line before
them. -/
def Site.FollowsDropped (dropped : List Nat) (site : Site) : Prop :=
  (∃ n ∈ site.before.head?, n.index ∈ dropped) ∧
    ∃ n ∈ (site.before.dropWhile fun n => dropped.contains n.index).head?, n.token.kind = .newline

/-- A string that could be a docstring and is in scope, and that only dropped blank lines part from
the statement before it. -/
def Site.IsExposed (o : Options) (dropped : List Nat) (site : Site) : Prop :=
  site.isCandidate = true ∧ inScope o site.token = true ∧ site.FollowsDropped dropped

instance (o : Options) (dropped : List Nat) (site : Site) :
    Decidable (site.IsExposed o dropped) :=
  inferInstanceAs (Decidable (_ ∧ _ ∧ (_ ∧ _)))

private theorem mem_numbered {i : Nat} {ts : List Token} {n : Numbered} (h : n ∈ numbered i ts) :
    ∃ j < ts.length, n.index = i + j := by
  obtain ⟨us, vs, heq⟩ := List.append_of_mem h
  obtain ⟨htokens, hindex⟩ := numbered_eq_append heq
  refine ⟨us.length, ?_, hindex⟩
  rw [htokens]
  simp

private theorem head_of_becomes (h : tokenize s = .ok tokens)
    (hrows : KeepsRows (revision o tokens) tokens) (hsite : site ∈ sites tokens)
    (hbecomes : site.Becomes (revision o tokens) site') {n : Numbered}
    (hn : n ∈ site'.before.head?) (hkind : n.token.kind = .indent ∨ n.token.kind = .newline) :
    (∃ m ∈ site.before.head?, m.token.kind = .indent ∨ m.token.kind = .newline) ∨
      site.FollowsDropped (droppedBlanks o (blocks tokens) (sites tokens)) := by
  obtain ⟨pre, htokens, -, hbefore⟩ := mem_sites hsite
  obtain ⟨rest, hrest⟩ := List.head?_eq_some_iff.mp hn
  have hrevised := hbecomes.before
  rw [hbefore, List.map_reverse, List.reverse_reverse, map_token_numbered, hrest, List.map_cons,
    List.reverse_cons] at hrevised
  obtain ⟨ps, t, qs, rfl, -, ht, hqs⟩ := hrevised.exists_right
  have htkind := ht.kind
  rw [htkind] at hkind
  have hsplit : site.before = (numbered (ps.length + 1) qs).reverse ++
      ⟨ps.length, t⟩ :: (numbered 0 ps).reverse := by
    rw [hbefore, numbered_append, numbered]
    simp
  cases qs with
  | nil => exact Or.inl ⟨⟨ps.length, t⟩, by rw [hsplit]; rfl, hkind⟩
  | cons q qs =>
    have hdropped := hqs.dropped_of_nil
    rw [Nat.zero_add] at hdropped ht
    have hblanks : ∀ m ∈ (numbered (ps.length + 1) (q :: qs)).reverse,
        m.index ∈ droppedBlanks o (blocks tokens) (sites tokens) := by
      intro m hm
      obtain ⟨j, hj, hindex⟩ := mem_numbered (List.mem_reverse.mp hm)
      rw [hindex, ← revision_eq_drop_iff h]
      exact hdropped j hj
    have hnewline : ps.length ∉ droppedBlanks o (blocks tokens) (sites tokens) := by
      intro hmem
      rw [(revision_eq_drop_iff h _).mpr hmem] at ht
      exact ht
    refine Or.inr ⟨?_, ⟨ps.length, t⟩, ?_, ?_⟩
    · obtain ⟨m, ms, hms⟩ := List.exists_cons_of_ne_nil
        (by simp [numbered] : (numbered (ps.length + 1) (q :: qs)).reverse ≠ [])
      refine ⟨m, by rw [hsplit, hms]; rfl, hblanks m ?_⟩
      rw [hms]
      exact List.mem_cons_self
    · rw [hsplit, List.dropWhile_append_of_pos (by simpa using hblanks),
        List.dropWhile_cons_of_neg (by simpa using hnewline)]
      rfl
    · refine hkind.resolve_left fun hindent => ?_
      have hwhole : tokens = ps ++ t :: (q :: qs ++ site.token :: site.after) := by
        rw [htokens]
        simp
      exact hrows _ _ _ hwhole (Or.inr (Or.inr hindent)) (hdropped 0 (by simp))

private theorem admitted_of_becomes (hrange : o.lineRange = none)
    (hrows : KeepsRows (revision o tokens) tokens) (hsite : site ∈ sites tokens)
    (hbecomes : site.Becomes (revision o tokens) site') {reported : List Nat}
    (hrewritten : site'.IsRewritten o reported) :
    site.isCandidate = true ∧ inScope o site.token = true := by
  cases hrevision : revision o tokens site.index with
  | replace text =>
    have hfirst := isRewritten_of_replace hsite hrevision
    exact ⟨hfirst.1, hfirst.2.1⟩
  | drop =>
    have hfalse := hbecomes.token
    rw [hrevision] at hfalse
    exact hfalse.elim
  | keep =>
    have hkind : site.token.kind = .string :=
      hbecomes.token.kind.symm.trans (kind_of_isRewritten hrewritten)
    refine ⟨isCandidate_of_becomes hrows hsite hbecomes hrevision hrewritten.1, ?_⟩
    rw [← inScope_of_moved hrange (moved_of_becomes hbecomes hkind hrevision)]
    exact hrewritten.2.1

theorem isRewritten_of_subject? (hrange : o.lineRange = none) (h : tokenize s = .ok tokens)
    (hrows : KeepsRows (revision o tokens) tokens) (hsite : site ∈ sites tokens)
    (hbecomes : site.Becomes (revision o tokens) site') {reported : List Nat}
    (hrewritten : site'.IsRewritten o reported) {subject : Docstring.Subject}
    (hsubject : site'.subject? = some subject) :
    site.IsRewritten o ((blocks tokens).map Block.docstring) := by
  obtain ⟨hcandidate, hscope⟩ := admitted_of_becomes hrange hrows hsite hbecomes hrewritten
  rw [isRewritten_iff_subject? h hsite, subject?_of_becomes h hsite hbecomes hsubject]
  exact ⟨hcandidate, hscope, Or.inl rfl⟩

/-- A string that is rewritten when a formatted source is formatted again was rewritten the first
time, or it was exposed then. -/
theorem isRewritten_or_isExposed (hrange : o.lineRange = none) (h : tokenize s = .ok tokens)
    (hrows : KeepsRows (revision o tokens) tokens) (h' : tokenize out = .ok tokens')
    (hsite : site ∈ sites tokens) (hsite' : site' ∈ sites tokens')
    (hbecomes : site.Becomes (revision o tokens) site')
    (hrewritten : site'.IsRewritten o ((blocks tokens').map Block.docstring)) :
    site.IsRewritten o ((blocks tokens).map Block.docstring) ∨
      site.IsExposed o (droppedBlanks o (blocks tokens) (sites tokens)) := by
  obtain ⟨hcandidate, hscope⟩ := admitted_of_becomes hrange hrows hsite hbecomes hrewritten
  obtain ⟨-, -, hsubject | hopens⟩ := (isRewritten_iff_subject? h' hsite').mp hrewritten
  · obtain ⟨subject, hsubject⟩ := Option.isSome_iff_exists.mp hsubject
    exact Or.inl (isRewritten_of_subject? hrange h hrows hsite hbecomes hrewritten hsubject)
  · rw [opensBlock_iff (kind_before_ne_encoding h' hsite')] at hopens
    rw [isRewritten_iff_subject? h hsite, opensBlock_iff (kind_before_ne_encoding h hsite)]
    rcases hopens with ⟨n, hn, hkind⟩ | hlayout
    · rcases head_of_becomes h hrows hsite hbecomes hn hkind with hhead | hexposed
      · exact Or.inl ⟨hcandidate, hscope, Or.inr (Or.inl hhead)⟩
      · exact Or.inr ⟨hcandidate, hscope, hexposed⟩
    · refine Or.inl ⟨hcandidate, hscope, Or.inr (Or.inr ?_)⟩
      obtain ⟨pre, htokens, -, hbefore⟩ := mem_sites hsite
      have hrevised := hbecomes.before
      rw [hbefore, List.map_reverse, List.reverse_reverse, map_token_numbered] at hrevised
      intro n hn
      have hmem : n.token ∈ pre := by
        rw [← map_token_numbered 0 pre]
        rw [hbefore] at hn
        exact List.mem_map_of_mem (List.mem_reverse.mp hn)
      have hwhole : tokens = [] ++ pre ++ site.token :: site.after := htokens
      rcases kind_of_mem_revised (revises_revision o h) hwhole hrevised hmem with
        hnl | ⟨u, hu, hkind⟩
      · exact Or.inr (Or.inl hnl)
      · obtain ⟨m, hm, rfl⟩ := List.mem_map.mp (List.mem_reverse.mp hu)
        rw [← hkind]
        exact hlayout m hm

theorem text_of_becomes (hsite : site ∈ sites tokens)
    (hbecomes : site.Becomes (revision o tokens) site') :
    site'.token.text = site.newText o ((blocks tokens).map Block.docstring) := by
  obtain ⟨pre, htokens, hindex, hbefore⟩ := mem_sites hsite
  have hnew := @newText_of_revision o tokens pre site.after site.token htokens
  have htoken := hbecomes.token
  rw [← hbefore, ← hindex] at hnew
  refine Eq.trans ?_ hnew.symm
  cases hrevision : revision o tokens site.index with
  | keep =>
    rw [hrevision] at htoken
    exact Token.Kept.text htoken
  | drop =>
    rw [hrevision] at htoken
    exact htoken.elim
  | replace text =>
    rw [hrevision] at htoken
    exact Token.Replaced.text htoken

private theorem leadingBlanks_firstLine {lead y : Text} {c : Char}
    (hlead : ∀ d ∈ lead, isSpacing d = true)
    (hc : Character.isBlank c = false) :
    Text.leadingBlanks ((lead ++ c :: y).takeWhile (· != '\n')) = lead := by
  have hnewline : c ≠ '\n' := by
    rintro rfl
    cases hc
  rw [List.takeWhile_append_of_pos fun d hd => by simpa using isSpacing_ne_newline (hlead d hd),
    List.takeWhile_cons_of_pos (by simpa using hnewline), Text.leadingBlanks,
    List.takeWhile_append_of_pos fun d hd => isBlank_of_isSpacing (hlead d hd),
    List.takeWhile_cons_of_neg (by simp [hc]), List.append_nil]

theorem lineIndent_of_becomes (h : tokenize s = .ok tokens) (hsite : site ∈ sites tokens)
    (hbecomes : site.Becomes (revision o tokens) site') (hkind : site.token.kind = .string) :
    site'.token.lineIndent = site.token.lineIndent := by
  cases hrevision : revision o tokens site.index with
  | keep =>
    have hmoved := moved_of_becomes hbecomes hkind hrevision
    rw [Token.lineIndent, Token.lineIndent, Token.firstLine, Token.firstLine, hmoved.line]
  | drop =>
    have hfalse := hbecomes.token
    rw [hrevision] at hfalse
    exact hfalse.elim
  | replace text =>
    have hreplaced := hbecomes.token
    rw [hrevision] at hreplaced
    obtain ⟨lead, rest, hlead, hline, hline'⟩ := Token.Replaced.line hreplaced
    obtain ⟨site₀, hsite₀, -, -, -, hindex, hne, htext⟩ := exists_of_replace hrevision
    obtain rfl := site_ext hsite₀ hsite hindex
    obtain ⟨pre, htokens, hlength, -⟩ := mem_sites hsite
    have hdocstring := (revises_revision o h).replace _ _ hrevision
    rw [hlength] at hdocstring
    obtain ⟨-, hliteral, -⟩ := hdocstring.of_split htokens
    obtain ⟨q, hq, hopening⟩ := List.any_eq_true.mp hliteral
    obtain ⟨body, hbody⟩ := List.isPrefixOf_iff_prefix.mp hopening
    obtain ⟨opening, hcanonical, body', hbody'⟩ :=
      exists_canonical_of_changed (Text.isBlank_leadingBlanks _) (newText_ne hne).2 hne
    have hstart : ∀ p ∈ Docstring.Opening.all.map Docstring.Opening.text ++
        Docstring.canonicalOpenings, ∀ y,
          Text.leadingBlanks ((lead ++ (p ++ y)).takeWhile (· != '\n')) = lead := by
      intro p hp y
      obtain ⟨c, rest, rfl, hc⟩ := exists_head_of_opening hp
      exact leadingBlanks_firstLine hlead hc
    have hleft := hstart q.text (List.mem_append_left _ (List.mem_map_of_mem hq)) (body ++ rest)
    have hright := hstart opening (List.mem_append_right _ hcanonical)
      (body' ++ Docstring.tripleDouble ++ rest)
    rw [Token.lineIndent, Token.lineIndent, Token.firstLine, Token.firstLine, hline, hline', htext,
      hbody', ← hbody]
    simp only [List.append_assoc] at hleft hright ⊢
    rw [hleft, hright]

end Rewritten

end DocstringFormat.Source
