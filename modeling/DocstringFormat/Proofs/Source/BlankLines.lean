import DocstringFormat.Proofs.Source.Header
import DocstringFormat.Proofs.Source.Idempotence

/-!
Which blank lines are left around docstrings.

Blank lines above a docstring stand between it and the end of the logical line before it
(`StandsAbove`), those below it right after the end of its own line (`StandsBelow`).  No blank line
stands around the docstrings of two blocks (`IsBlankAbove.index_eq`, `IsBlankBelow.index_eq`,
`not_isBlankAbove_of_isBlankBelow`).  So what is dropped is said block by block, and so is what is
left of the tokens (`blank_lines_around_blocks`).
-/

set_option autoImplicit false

namespace DocstringFormat.Source

open Docstring (Subject)

section Regions

/-- `gap` stands between the token with a number and the end of the logical line before it, or the
start of the source. -/
structure StandsAbove (tokens : List Token) (index : Nat) (pre gap post : List Token) : Prop where
  tokens_eq : tokens = pre ++ (gap ++ post)
  length_eq : pre.length + gap.length = index
  unbroken : ∀ t ∈ gap, t.kind ≠ .newline
  ended : ∀ t, pre.getLast? = some t → t.kind = .newline

/-- `rest` stands after the end of a logical line, with only comments between that end and the token
with a number, the last of `pre`. -/
structure StandsBelow (tokens : List Token) (index : Nat) (pre comments : List Token)
    (newline : Token) (rest : List Token) : Prop where
  tokens_eq : tokens = pre ++ (comments ++ newline :: rest)
  length_eq : pre.length = index + 1
  comment : ∀ t ∈ comments, t.kind = .comment
  ended : newline.kind = .newline

/-- Number `i` is that of a blank line above the token with number `index`. -/
def IsBlankAbove (tokens : List Token) (index i : Nat) : Prop :=
  ∃ pre early t late post, StandsAbove tokens index pre (early ++ t :: late) post ∧
    pre.length + early.length = i ∧ t.isBlankLine = true

/-- Number `i` is that of one of the blank lines right below the token with number `index`. -/
def IsBlankBelow (tokens : List Token) (index i : Nat) : Prop :=
  ∃ pre comments newline early t late, t.isBlankLine = true ∧
    StandsBelow tokens index pre comments newline (early ++ t :: late) ∧
    (∀ u ∈ early, u.isBlankLine = true) ∧ index + comments.length + 2 + early.length = i

/-- What a docstring of a subject documents: the header of a class or a function, or an
assignment. -/
def Documents (subject : Subject) (statement : List Token) : Prop :=
  definedSubject? (statement.filter (fun t => !t.kind.isTrivia)) = some subject ∨
    subject = .assignment ∧ assigns statement = true

/-- Whether the docstring of a block is one that is formatted. -/
def Block.IsEligible (o : Options) (tokens : List Token) (b : Block) : Prop :=
  ∃ site ∈ sites tokens, site.index = b.docstring ∧
    site.isEligible o ((blocks tokens).map Block.docstring) = true

/-- What is left of a part of the tokens that starts at a number. -/
def leftFrom (o : Options) (tokens : List Token) (index : Nat) (part : List Token) : List Token :=
  withoutIndices (droppedBlanks o (blocks tokens) (sites tokens)) index part

end Regions

section Splits

private theorem takeWhile_append_of_stop {α : Type} {p : α → Bool} {us vs : List α}
    (hus : ∀ a ∈ us, p a = true) (hvs : ∀ a, vs.head? = some a → p a = false) :
    (us ++ vs).takeWhile p = us := by
  rw [List.takeWhile_append_of_pos hus]
  cases vs with
  | nil => simp
  | cons a vs => rw [List.takeWhile_cons_of_neg (by simp [hvs a rfl]), List.append_nil]

private theorem split_unique {α : Type} {p : α → Bool} {us vs us' vs' : List α}
    (hus : ∀ a ∈ us, p a = true)
    (hus' : ∀ a ∈ us', p a = true) (hvs : ∀ a, vs.head? = some a → p a = false)
    (hvs' : ∀ a, vs'.head? = some a → p a = false) (h : us ++ vs = us' ++ vs') :
    us = us' ∧ vs = vs' := by
  have htake := congrArg (List.takeWhile p) h
  rw [takeWhile_append_of_stop hus hvs, takeWhile_append_of_stop hus' hvs'] at htake
  subst htake
  exact ⟨rfl, List.append_cancel_left h⟩

variable {tokens pre gap post pre' gap' post' : List Token} {index : Nat}

theorem StandsAbove.unique (h : StandsAbove tokens index pre gap post)
    (h' : StandsAbove tokens index pre' gap' post') : pre = pre' ∧ gap = gap' ∧ post = post' := by
  have htokens := h.tokens_eq.symm.trans h'.tokens_eq
  rw [← List.append_assoc, ← List.append_assoc] at htokens
  obtain ⟨hfront, hpost⟩ := List.append_inj htokens
    (by rw [List.length_append, List.length_append, h.length_eq, h'.length_eq])
  have hreverse := congrArg List.reverse hfront
  rw [List.reverse_append, List.reverse_append] at hreverse
  obtain ⟨hgap, hpre⟩ := @split_unique _ (fun t : Token => t.kind != .newline) _ _ _ _
    (by simpa using h.unbroken) (by simpa using h'.unbroken)
    (by simpa using h.ended) (by simpa using h'.ended) hreverse
  exact ⟨List.reverse_injective hpre, List.reverse_injective hgap, hpost⟩

theorem StandsBelow.unique {comments rest comments' rest' : List Token} {newline newline' : Token}
    (h : StandsBelow tokens index pre comments newline rest)
    (h' : StandsBelow tokens index pre' comments' newline' rest') :
    pre = pre' ∧ comments = comments' ∧ newline = newline' ∧ rest = rest' := by
  obtain ⟨hpre, hafter⟩ := List.append_inj (h.tokens_eq.symm.trans h'.tokens_eq)
    (by rw [h.length_eq, h'.length_eq])
  obtain ⟨hcomments, hrest⟩ := @split_unique _ (fun t : Token => t.kind == .comment) _ _ _ _
    (by simpa using h.comment) (by simpa using h'.comment)
    (by simp [h.ended]) (by simp [h'.ended]) hafter
  obtain ⟨hnewline, hrest⟩ := List.cons.inj hrest
  exact ⟨hpre, hcomments, hnewline, hrest⟩

end Splits

section Above

variable {s : Text} {tokens : List Token} {site : Site} {b : Block}

private theorem mem_numbered_iff {index : Nat} {n : Numbered} :
    n ∈ numbered index tokens ↔
      ∃ early late, tokens = early ++ n.token :: late ∧ index + early.length = n.index := by
  constructor
  · intro hn
    obtain ⟨us, vs, hsplit⟩ := List.append_of_mem hn
    obtain ⟨htokens, hindex⟩ := numbered_eq_append hsplit
    exact ⟨_, _, htokens, by rw [hindex, List.length_map]⟩
  · rintro ⟨early, late, rfl, hindex⟩
    rw [numbered_append, numbered, hindex]
    simp

private theorem documents_of_block? (hblock : site.block? = some b) :
    (fromSignificant site.before = [] ∧ b.subject = .wholeModule) ∨
      ∃ newline rest, fromSignificant site.before = newline :: rest ∧
        newline.token.kind = .newline ∧
        Documents b.subject (lastStatement (rest.map Numbered.token)) := by
  unfold Site.block? at hblock
  split at hblock
  · rename_i hnil
    cases hblock
    exact Or.inl ⟨hnil, rfl⟩
  · rename_i newline rest hsignificant
    split at hblock
    · cases hblock
    · rename_i hnewline
      refine Or.inr ⟨newline, rest, hsignificant, by simpa using hnewline, ?_⟩
      rw [Documents, ← map_statementBefore]
      dsimp only at hblock
      split at hblock
      · rename_i subject hdefines
        cases hblock
        exact Or.inl hdefines
      · split at hblock
        · rename_i hassigns
          cases hblock
          exact Or.inr ⟨rfl, by rwa [isAssignment_eq] at hassigns⟩
        · cases hblock

private theorem exists_standsAbove (h : tokenize s = .ok tokens) (hsite : site ∈ sites tokens)
    (hblock : site.block? = some b) :
    ∃ pre gap, StandsAbove tokens site.index pre gap (site.token :: site.after) ∧
      site.before = (numbered pre.length gap).reverse ++ (numbered 0 pre).reverse ∧
      (∀ t ∈ gap, t.kind ∈ [TokenKind.indent, .nl, .comment]) ∧
      ((pre = [] ∧ b.subject = .wholeModule) ∨
        ∃ before newline, pre = before ++ [newline] ∧ newline.kind = .newline ∧
          Documents b.subject (lastStatement before.reverse)) := by
  obtain ⟨front, htokens, hindex, hbefore⟩ := mem_sites hsite
  obtain ⟨us, hus, hlayout, -⟩ := exists_fromSignificant site.before
  have hfront : front = (fromSignificant site.before).reverse.map Numbered.token ++
      us.reverse.map Numbered.token := by
    rw [← List.map_append, ← List.reverse_append, ← hus, hbefore, List.reverse_reverse,
      map_token_numbered]
  have hgap : ∀ t ∈ us.reverse.map Numbered.token, t.kind ∈ [TokenKind.indent, .nl, .comment] := by
    intro t ht
    obtain ⟨n, hn, rfl⟩ := List.mem_map.mp ht
    have hmem : n ∈ site.before := by
      rw [hus]
      exact List.mem_append_left _ (List.mem_reverse.mp hn)
    simpa [kind_before_ne_encoding h hsite n hmem] using hlayout n (List.mem_reverse.mp hn)
  have hstatement : ((fromSignificant site.before).reverse.map Numbered.token = [] ∧
      b.subject = .wholeModule) ∨ ∃ before newline,
        (fromSignificant site.before).reverse.map Numbered.token = before ++ [newline] ∧
          newline.kind = .newline ∧ Documents b.subject (lastStatement before.reverse) := by
    rcases documents_of_block? hblock with ⟨hnil, hsubject⟩ | ⟨newline, rest, hcons, hkind, hdocuments⟩
    · exact Or.inl ⟨by rw [hnil]; rfl, hsubject⟩
    · refine Or.inr ⟨rest.reverse.map Numbered.token, newline.token, ?_, hkind, ?_⟩
      · rw [hcons]
        simp
      · rwa [← List.map_reverse, List.reverse_reverse]
  generalize (fromSignificant site.before).reverse.map Numbered.token = pre at hfront hstatement
  generalize us.reverse.map Numbered.token = gap at hfront hgap
  refine ⟨pre, gap, ⟨?_, ?_, ?_, ?_⟩, ?_, hgap, hstatement⟩
  · rw [htokens, hfront, List.append_assoc]
  · rw [hindex, hfront, List.length_append]
  · rintro t ht hkind
    have hlayout := hgap t ht
    simp [hkind] at hlayout
  · rintro t ht
    rcases hstatement with ⟨rfl, -⟩ | ⟨before, newline, rfl, hkind, -⟩
    · cases ht
    · rw [List.getLast?_concat] at ht
      obtain rfl := Option.some.inj ht
      exact hkind
  · rw [hbefore, hfront, numbered_append, List.reverse_append, Nat.zero_add]

private theorem mem_blanksBefore_iff_isBlankAbove (h : tokenize s = .ok tokens)
    (hsite : site ∈ sites tokens)
    (hblock : site.block? = some b) {i : Nat} :
    i ∈ blanksBefore site ↔ IsBlankAbove tokens site.index i := by
  obtain ⟨pre, gap, habove, hbefore, hgap, -⟩ := exists_standsAbove h hsite hblock
  have htake : site.before.takeWhile (fun n => n.token.kind ∈ [.indent, .nl, .comment]) =
      (numbered pre.length gap).reverse := by
    rw [hbefore]
    apply takeWhile_append_of_stop
    · intro n hn
      have hmem := List.mem_map_of_mem (f := Numbered.token) (List.mem_reverse.mp hn)
      rw [map_token_numbered] at hmem
      exact decide_eq_true (hgap n.token hmem)
    · intro n hn
      rw [List.head?_reverse] at hn
      have hlast := congrArg (Option.map Numbered.token) hn
      rw [← List.getLast?_map, map_token_numbered] at hlast
      simp [habove.ended n.token hlast]
  simp only [blanksBefore, htake, List.mem_map, List.mem_filter, List.mem_reverse, mem_numbered_iff]
  constructor
  · rintro ⟨n, ⟨⟨early, late, rfl, hindex⟩, hblank⟩, rfl⟩
    exact ⟨pre, early, n.token, late, _, habove, hindex, hblank⟩
  · rintro ⟨pre', early, t, late, post, habove', hindex, hblank⟩
    obtain ⟨rfl, rfl, -⟩ := habove.unique habove'
    exact ⟨⟨i, t⟩, ⟨⟨early, late, rfl, hindex⟩, hblank⟩, rfl⟩

end Above

section Docstrings

structure Block.IsAt (tokens : List Token) (b : Block) (site : Site) : Prop where
  mem : site ∈ sites tokens
  candidate : site.isCandidate = true
  block : site.block? = some b

variable {s : Text} {tokens : List Token} {o : Options} {a b : Site} {p q : Block} {i : Nat}

private theorem mem_blocks_iff (h : tokenize s = .ok tokens) :
    p ∈ blocks tokens ↔ ∃ site, p.IsAt tokens site := by
  rw [blocks_eq h, List.mem_filterMap]
  constructor
  · rintro ⟨site, hsite, hblock⟩
    obtain ⟨hmem, hcandidate⟩ := List.mem_filter.mp hsite
    exact ⟨site, hmem, hcandidate, hblock⟩
  · rintro ⟨site, hmem, hcandidate, hblock⟩
    exact ⟨site, List.mem_filter.mpr ⟨hmem, hcandidate⟩, hblock⟩

namespace Block.IsAt

private theorem docstring_eq (h : p.IsAt tokens a) : p.docstring = a.index :=
  docstring_block? h.block

private theorem kind_eq (h : p.IsAt tokens a) : a.token.kind = .string := by
  have hcandidate := h.candidate
  simp only [Site.isCandidate, Bool.and_eq_true, beq_iff_eq] at hcandidate
  exact hcandidate.1.1.1

theorem unique (hp : p.IsAt tokens a) (hq : q.IsAt tokens b) (hindex : a.index = b.index) : p = q := by
  obtain rfl := site_ext hp.mem hq.mem hindex
  exact Option.some.inj (hp.block.symm.trans hq.block)

private theorem isEligible_iff_site (h : p.IsAt tokens a) :
    p.IsEligible o tokens ↔ a.isEligible o ((blocks tokens).map Block.docstring) = true := by
  constructor
  · rintro ⟨site, hsite, hindex, heligible⟩
    rwa [site_ext h.mem hsite (h.docstring_eq.symm.trans hindex.symm)]
  · intro heligible
    exact ⟨a, h.mem, h.docstring_eq.symm, heligible⟩

private theorem not_documents (h : p.IsAt tokens a) {pre comments : List Token} {subject : Subject}
    (hbefore : a.before = (numbered 0 pre).reverse) (hcomments : ∀ t ∈ comments, t.kind = .comment) :
    ¬ Documents subject (lastStatement (pre ++ a.token :: comments).reverse) := by
  have hkinds : ∀ m ∈ numbered (a.index + 1) comments, m.token.kind = .comment := by
    intro m hm
    have hmem := List.mem_map_of_mem (f := Numbered.token) hm
    rw [map_token_numbered] at hmem
    exact hcomments m.token hmem
  have hstatement : statementBefore
      ((numbered (a.index + 1) comments).reverse ++ ⟨a.index, a.token⟩ :: a.before) =
        ⟨a.index, a.token⟩ :: numbered (a.index + 1) comments := by
    rw [statementBefore_of_line, List.reverse_reverse]
    · intro m hm
      simp [hkinds m (List.mem_reverse.mp hm)]
    · simp [h.kind_eq]
    · rw [h.kind_eq]
      rfl
    · exact isTrivia_of_block? h.block
  have hlast : lastStatement (pre ++ a.token :: comments).reverse =
      (Numbered.mk a.index a.token :: numbered (a.index + 1) comments).map Numbered.token := by
    rw [← hstatement, map_statementBefore, hbefore]
    simp [List.map_reverse, map_token_numbered]
  obtain ⟨hdefines, hassigns⟩ := @no_subject_of_string ⟨a.index, a.token⟩
    (numbered (a.index + 1) comments) h.kind_eq hkinds
  rw [isAssignment_eq] at hassigns
  rw [Documents, hlast, hassigns]
  rintro (hsubject | ⟨-, hfalse⟩)
  · exact absurd (hdefines.symm.trans hsubject) (by simp)
  · cases hfalse

end Block.IsAt

private theorem IsBlankAbove.exists_layout (h : tokenize s = .ok tokens) (hp : p.IsAt tokens a)
    (hi : IsBlankAbove tokens a.index i) :
    ∃ front late, tokens = front ++ (late ++ a.token :: a.after) ∧ front.length = i + 1 ∧
      i + 1 + late.length = a.index ∧ ∀ t ∈ late, t.kind ∈ [TokenKind.indent, .nl, .comment] := by
  obtain ⟨pre, early, t, late, post, habove, rfl, -⟩ := hi
  obtain ⟨pre', gap, habove', -, hgap, -⟩ := exists_standsAbove h hp.mem hp.block
  obtain ⟨rfl, rfl, rfl⟩ := habove.unique habove'
  refine ⟨pre ++ (early ++ [t]), late, ?_, ?_, ?_, ?_⟩
  · rw [habove.tokens_eq]
    simp
  · simp only [List.length_append, List.length_singleton]
    omega
  · have hlength := habove.length_eq
    simp only [List.length_append, List.length_cons] at hlength
    omega
  · exact fun u hu => hgap u (by simp [hu])

private theorem IsBlankAbove.index_eq (h : tokenize s = .ok tokens) (hp : p.IsAt tokens a)
    (hq : q.IsAt tokens b) (hi : IsBlankAbove tokens a.index i) (hi' : IsBlankAbove tokens b.index i) :
    a.index = b.index := by
  obtain ⟨front, late, htokens, hlength, hindex, hlayout⟩ := hi.exists_layout h hp
  obtain ⟨front', late', htokens', hlength', hindex', hlayout'⟩ := hi'.exists_layout h hq
  obtain ⟨-, hrest⟩ := List.append_inj (htokens.symm.trans htokens') (by rw [hlength, hlength'])
  obtain ⟨rfl, -⟩ := @split_unique _
    (fun t : Token => decide (t.kind ∈ [TokenKind.indent, .nl, .comment])) _ _ _ _
    (by simpa using hlayout) (by simpa using hlayout')
    (by simp [hp.kind_eq]) (by simp [hq.kind_eq]) hrest
  rw [← hindex, ← hindex']

private theorem IsBlankBelow.exists_blanks (hp : p.IsAt tokens a)
    (hi : IsBlankBelow tokens a.index i) :
    ∃ pre comments newline early post,
      tokens = (pre ++ a.token :: comments) ++ newline :: early ++ post ∧
      a.before = (numbered 0 pre).reverse ∧ a.index = pre.length ∧
      ((pre ++ a.token :: comments) ++ newline :: early).length = i ∧
      (∀ t ∈ comments, t.kind = .comment) ∧ newline.kind = .newline ∧
      ∀ t ∈ early, t.isBlankLine = true := by
  obtain ⟨pre, htokens, hindex, hbefore⟩ := mem_sites hp.mem
  obtain ⟨pre', comments, newline, early, t, late, -, hbelow, hearly, rfl⟩ := hi
  have hsplit : tokens = (pre ++ [a.token]) ++ a.after := by
    rw [htokens]
    simp
  obtain ⟨rfl, -⟩ := List.append_inj (hbelow.tokens_eq.symm.trans hsplit)
    (by rw [hbelow.length_eq, hindex, List.length_append, List.length_singleton])
  refine ⟨pre, comments, newline, early, t :: late, ?_, hbefore, hindex, ?_, hbelow.comment,
    hbelow.ended, hearly⟩
  · rw [hbelow.tokens_eq]
    simp
  · simp only [List.length_append, List.length_cons, hindex]
    omega

private theorem isBlankLine_of_newline {t : Token} (h : t.kind = .newline) :
    t.isBlankLine = false := by
  rw [Token.isBlankLine, h]
  rfl

private theorem IsBlankBelow.index_eq (hp : p.IsAt tokens a) (hq : q.IsAt tokens b)
    (hi : IsBlankBelow tokens a.index i) (hi' : IsBlankBelow tokens b.index i) :
    a.index = b.index := by
  obtain ⟨pre, comments, newline, early, post, htokens, -, hindex, hlength, hcomments, hnewline,
    hearly⟩ := hi.exists_blanks hp
  obtain ⟨pre', comments', newline', early', post', htokens', -, hindex', hlength', hcomments',
    hnewline', hearly'⟩ := hi'.exists_blanks hq
  obtain ⟨hfront, -⟩ := List.append_inj (htokens.symm.trans htokens') (by rw [hlength, hlength'])
  -- Read backwards: blank lines, the end of the line, comments, the docstring.
  have hreverse := congrArg List.reverse hfront
  simp only [List.reverse_append, List.reverse_cons, List.append_assoc, List.cons_append,
    List.nil_append] at hreverse
  obtain ⟨-, hline⟩ := @split_unique _ Token.isBlankLine _ _ _ _
    (by simpa using hearly) (by simpa using hearly')
    (by simp [isBlankLine_of_newline hnewline]) (by simp [isBlankLine_of_newline hnewline']) hreverse
  obtain ⟨-, hpre⟩ := @split_unique _ (fun t : Token => t.kind == .comment) _ _ _ _
    (by simpa using hcomments) (by simpa using hcomments')
    (by simp [hp.kind_eq]) (by simp [hq.kind_eq]) (List.cons.inj hline).2
  have hlengths := congrArg List.length (List.cons.inj hpre).2
  rwa [List.length_reverse, List.length_reverse, ← hindex, ← hindex'] at hlengths

private theorem not_isBlankAbove_of_isBlankBelow (h : tokenize s = .ok tokens)
    (hp : p.IsAt tokens a)
    (hq : q.IsAt tokens b) (hi : IsBlankBelow tokens a.index i) : ¬ IsBlankAbove tokens b.index i := by
  rintro ⟨pre', early', t, late, post', habove, hindex', -⟩
  obtain ⟨pre, comments, newline, early, post, htokens, hbefore, -, hlength, hcomments, hnewline,
    hearly⟩ := hi.exists_blanks hp
  have htokens' : tokens = (pre' ++ early') ++ (t :: late ++ post') := by
    rw [habove.tokens_eq]
    simp
  obtain ⟨hfront, -⟩ := List.append_inj (htokens'.symm.trans htokens)
    (by rw [hlength, List.length_append, hindex'])
  have hreverse := congrArg List.reverse hfront
  rw [List.reverse_append, List.reverse_append, List.reverse_cons, List.append_assoc,
    List.singleton_append] at hreverse
  obtain ⟨-, hpre⟩ := @split_unique _ (fun t : Token => t.kind != .newline) _ _ _ _
    (by simpa using fun t ht => habove.unbroken t (by simp [ht]))
    (by simpa using fun t ht => by simp [kind_of_isBlankLine (hearly t ht)])
    (by simpa using habove.ended) (by simp [hnewline]) hreverse
  have hpre : pre' = (pre ++ a.token :: comments) ++ [newline] := by
    rw [← List.reverse_reverse pre', hpre]
    simp
  obtain ⟨pre'', gap, habove', -, -, hstatement⟩ := exists_standsAbove h hq.mem hq.block
  obtain ⟨rfl, -⟩ := habove.unique habove'
  rcases hstatement with ⟨hnil, -⟩ | ⟨before, newline', hsplit, -, hdocuments⟩
  · simp [hnil] at hpre
  · rw [hpre] at hsplit
    obtain ⟨rfl, -⟩ := List.append_inj' hsplit rfl
    exact hp.not_documents hbefore hcomments hdocuments

end Docstrings

section Below

variable {s : Text} {tokens pre comments rest : List Token} {newline : Token} {site : Site} {i : Nat}

private theorem endsBody_dropWhile (ts : List Token) :
    endsBody (ts.dropWhile Token.isBlankLine) = endsBody ts := by
  have hblanks : (ts.takeWhile Token.isBlankLine).find? (fun t => t.kind != .nl && t.kind != .comment) =
      none := by
    rw [List.find?_eq_none]
    intro t ht
    simp [kind_of_isBlankLine (List.all_eq_true.mp List.all_takeWhile t ht)]
  conv_rhs => rw [← @List.takeWhile_append_dropWhile _ Token.isBlankLine ts]
  rw [endsBody, endsBody, List.find?_append, hblanks, Option.none_or]

private theorem exists_standsBelow (hsite : site ∈ sites tokens) (hi : i ∈ blanksAfter site) :
    ∃ pre comments newline rest, StandsBelow tokens site.index pre comments newline rest := by
  obtain ⟨pre, htokens, hindex, -⟩ := mem_sites hsite
  obtain ⟨comments, newline, rest, hafter, hcomments, hnewline⟩ := exists_split_of_mem_blanksAfter hi
  refine ⟨pre ++ [site.token], comments, newline, rest, ?_, ?_, hcomments, hnewline⟩
  · rw [htokens, hafter]
    simp
  · rw [hindex, List.length_append, List.length_singleton]

private theorem mem_blanksAfter_iff (hsite : site ∈ sites tokens)
    (hbelow : StandsBelow tokens site.index pre comments newline rest) :
    i ∈ blanksAfter site ↔ ∃ j, site.index + comments.length + 2 + j = i ∧
      j < (rest.takeWhile Token.isBlankLine).length ∧ (endsBody rest = true → j ≠ 0) := by
  obtain ⟨pre', htokens, hindex, -⟩ := mem_sites hsite
  have hsplit : tokens = (pre' ++ [site.token]) ++ site.after := by
    rw [htokens]
    simp
  obtain ⟨-, hafter⟩ := List.append_inj (hsplit.symm.trans hbelow.tokens_eq)
    (by rw [hbelow.length_eq, hindex, List.length_append, List.length_singleton])
  rw [blanksAfter_of_split hafter hbelow.comment hbelow.ended, endsBody_dropWhile]
  simp only [List.mem_map, List.mem_range]
  constructor
  · rintro ⟨j, hj, rfl⟩
    by_cases hends : endsBody rest = true
    · rw [if_pos hends] at hj ⊢
      exact ⟨1 + j, by omega, by omega, by omega⟩
    · rw [if_neg hends] at hj ⊢
      exact ⟨j, by omega, by omega, fun h => absurd h hends⟩
  · rintro ⟨j, rfl, hj, hfirst⟩
    by_cases hends : endsBody rest = true
    · have hpos := hfirst hends
      rw [if_pos hends]
      exact ⟨j - 1, by omega, by omega⟩
    · rw [if_neg hends]
      exact ⟨j, by omega, by omega⟩

private theorem StandsBelow.isBlankBelow_iff {index : Nat}
    (hbelow : StandsBelow tokens index pre comments newline rest) :
    IsBlankBelow tokens index i ↔ ∃ j, index + comments.length + 2 + j = i ∧
      j < (rest.takeWhile Token.isBlankLine).length := by
  constructor
  · rintro ⟨pre', comments', newline', early, t, late, hblank, hbelow', hearly, rfl⟩
    obtain ⟨rfl, rfl, rfl, rfl⟩ := hbelow.unique hbelow'
    refine ⟨early.length, rfl, ?_⟩
    rw [List.takeWhile_append_of_pos hearly, List.takeWhile_cons_of_pos hblank, List.length_append,
      List.length_cons]
    omega
  · rintro ⟨j, rfl, hj⟩
    have hblanks : ∀ t ∈ rest.takeWhile Token.isBlankLine, t.isBlankLine = true :=
      fun t ht => List.all_eq_true.mp List.all_takeWhile t ht
    have hrest : rest = (rest.takeWhile Token.isBlankLine).take j ++
        (rest.takeWhile Token.isBlankLine)[j] ::
          ((rest.takeWhile Token.isBlankLine).drop (j + 1) ++ rest.dropWhile Token.isBlankLine) := by
      rw [← List.cons_append, ← List.drop_eq_getElem_cons hj, ← List.append_assoc,
        List.take_append_drop, List.takeWhile_append_dropWhile]
    refine ⟨pre, comments, newline, _, _, _, hblanks _ (List.getElem_mem hj), hrest ▸ hbelow, ?_, ?_⟩
    · exact fun t ht => hblanks t (List.mem_of_mem_take ht)
    · rw [List.length_take, Nat.min_eq_left (Nat.le_of_lt hj)]

end Below

section Dropped

variable {o : Options} {s : Text} {tokens : List Token} {site : Site} {b : Block} {i : Nat}

private theorem mem_blanksAround_iff {subject : Subject} :
    i ∈ blanksAround subject site ↔ (subject ≠ .wholeModule ∧ i ∈ blanksBefore site) ∨
      (subject = .classDef ∨ subject = .functionDef) ∧ i ∈ blanksAfter site := by
  cases subject <;> simp [blanksAround]

private theorem isBlankBelow_of_mem_blanksAfter (hsite : site ∈ sites tokens)
    (hi : i ∈ blanksAfter site) :
    IsBlankBelow tokens site.index i := by
  obtain ⟨pre, comments, newline, rest, hbelow⟩ := exists_standsBelow hsite hi
  obtain ⟨j, hindex, hj, -⟩ := (mem_blanksAfter_iff hsite hbelow).mp hi
  exact hbelow.isBlankBelow_iff.mpr ⟨j, hindex, hj⟩

private theorem mem_droppedBlanks_iff_isAt (h : tokenize s = .ok tokens) :
    i ∈ droppedBlanks o (blocks tokens) (sites tokens) ↔
      ∃ (b : Block) (site : Site), b.IsAt tokens site ∧ b.IsEligible o tokens ∧
        ((b.subject ≠ .wholeModule ∧ IsBlankAbove tokens site.index i) ∨
          (b.subject = .classDef ∨ b.subject = .functionDef) ∧ i ∈ blanksAfter site) := by
  rw [mem_droppedBlanks_iff h]
  constructor
  · rintro ⟨site, hsite, hrewritten, subject, hsubject, hi⟩
    rw [← subject_block?] at hsubject
    obtain ⟨b, hblock, rfl⟩ := Option.map_eq_some_iff.mp hsubject
    have hat : b.IsAt tokens site := ⟨hsite, hrewritten.1, hblock⟩
    rw [mem_blanksAround_iff, mem_blanksBefore_iff_isBlankAbove h hsite hblock] at hi
    refine ⟨b, site, hat, hat.isEligible_iff_site.mpr ?_, hi⟩
    rwa [isEligible_iff (kind_before_ne_encoding h hsite)]
  · rintro ⟨b, site, hat, heligible, hi⟩
    rw [hat.isEligible_iff_site, isEligible_iff (kind_before_ne_encoding h hat.mem)] at heligible
    rw [← mem_blanksBefore_iff_isBlankAbove h hat.mem hat.block, ← mem_blanksAround_iff] at hi
    exact ⟨site, hat.mem, heligible, b.subject, by rw [← subject_block?, hat.block]; rfl, hi⟩

theorem IsBlankAbove.mem_droppedBlanks_iff (h : tokenize s = .ok tokens) (hat : b.IsAt tokens site)
    (hi : IsBlankAbove tokens site.index i) :
    i ∈ droppedBlanks o (blocks tokens) (sites tokens) ↔
      b.IsEligible o tokens ∧ b.subject ≠ .wholeModule := by
  rw [mem_droppedBlanks_iff_isAt h]
  constructor
  · rintro ⟨b', site', hat', heligible, ⟨hsubject, hi'⟩ | ⟨-, hi'⟩⟩
    · obtain rfl := hat.unique hat' (hi.index_eq h hat hat' hi')
      exact ⟨heligible, hsubject⟩
    · have hbelow := isBlankBelow_of_mem_blanksAfter hat'.mem hi'
      exact absurd hi (not_isBlankAbove_of_isBlankBelow h hat' hat hbelow)
  · rintro ⟨heligible, hsubject⟩
    exact ⟨b, site, hat, heligible, Or.inl ⟨hsubject, hi⟩⟩

theorem IsBlankBelow.mem_droppedBlanks_iff (h : tokenize s = .ok tokens) (hat : b.IsAt tokens site)
    (hi : IsBlankBelow tokens site.index i) :
    i ∈ droppedBlanks o (blocks tokens) (sites tokens) ↔
      (b.IsEligible o tokens ∧ (b.subject = .classDef ∨ b.subject = .functionDef)) ∧
        i ∈ blanksAfter site := by
  rw [mem_droppedBlanks_iff_isAt h]
  constructor
  · rintro ⟨b', site', hat', heligible, ⟨-, hi'⟩ | ⟨hsubject, hi'⟩⟩
    · exact absurd hi' (not_isBlankAbove_of_isBlankBelow h hat hat' hi)
    · have hindex := hi.index_eq hat hat' (isBlankBelow_of_mem_blanksAfter hat'.mem hi')
      obtain rfl := site_ext hat.mem hat'.mem hindex
      obtain rfl := hat.unique hat' rfl
      exact ⟨⟨heligible, hsubject⟩, hi'⟩
  · rintro ⟨⟨heligible, hsubject⟩, hi'⟩
    exact ⟨b, site, hat, heligible, Or.inr ⟨hsubject, hi'⟩⟩

end Dropped

section Left

variable {o : Options} {s : Text} {tokens part : List Token} {index : Nat}

private theorem leftFrom_append (us vs : List Token) :
    leftFrom o tokens index (us ++ vs) =
      leftFrom o tokens index us ++ leftFrom o tokens (index + us.length) vs := by
  unfold leftFrom
  induction us generalizing index with
  | nil => rfl
  | cons u us ih =>
    have hlength : index + (u :: us).length = index + 1 + us.length := by
      rw [List.length_cons]
      omega
    rw [List.cons_append, withoutIndices, withoutIndices, ih, hlength]
    split <;> rfl

private theorem leftFrom_eq_filter {p : Token → Bool}
    (h : ∀ early t late, part = early ++ t :: late →
      (index + early.length ∈ droppedBlanks o (blocks tokens) (sites tokens) ↔ p t = false)) :
    leftFrom o tokens index part = part.filter p := by
  unfold leftFrom
  induction part generalizing index with
  | nil => rfl
  | cons t part ih =>
    have hfirst := h [] t part rfl
    have hrest := @ih (index + 1) fun early u late hpart => by
      have hu := h (t :: early) u late (by rw [hpart]; rfl)
      rwa [List.length_cons, Nat.add_comm early.length, ← Nat.add_assoc] at hu
    rw [List.length_nil, Nat.add_zero, ← List.contains_iff_mem] at hfirst
    rw [withoutIndices, hrest]
    cases hp : p t with
    | true => rw [if_neg (by rw [hfirst, hp]; simp), List.filter_cons_of_pos hp]
    | false => rw [if_pos (hfirst.mpr hp), List.filter_cons_of_neg (by simp [hp])]

private theorem leftFrom_eq_self (h : ∀ early t late, part = early ++ t :: late →
    index + early.length ∉ droppedBlanks o (blocks tokens) (sites tokens)) :
    leftFrom o tokens index part = part := by
  rw [leftFrom_eq_filter (p := fun _ => true) fun early t late hpart => by simp [h early t late hpart],
    List.filter_true]

private theorem leftFrom_eq_nil (h : ∀ early t late, part = early ++ t :: late →
    index + early.length ∈ droppedBlanks o (blocks tokens) (sites tokens)) :
    leftFrom o tokens index part = [] := by
  rw [leftFrom_eq_filter (p := fun _ => false) fun early t late hpart => by simp [h early t late hpart],
    List.filter_false]

private theorem leftFrom_eq_self_of_not_blank (h : tokenize s = .ok tokens) {pre post : List Token}
    (htokens : tokens = pre ++ (part ++ post)) (hpart : ∀ t ∈ part, t.isBlankLine = false) :
    leftFrom o tokens pre.length part = part := by
  apply leftFrom_eq_self
  rintro early t late rfl hdropped
  rw [← List.length_append] at hdropped
  have hblank := (blank_of_dropped h hdropped).of_split
    (show tokens = (pre ++ early) ++ t :: (late ++ post) by rw [htokens]; simp)
  rw [hpart t (by simp)] at hblank
  cases hblank.1

private theorem leftFrom_cons_of_not_blank (h : tokenize s = .ok tokens) {pre post : List Token}
    {t : Token}
    (htokens : tokens = pre ++ t :: post) (ht : t.isBlankLine = false) (us : List Token) :
    leftFrom o tokens pre.length (t :: us) = t :: leftFrom o tokens (pre.length + 1) us := by
  have hfirst : leftFrom o tokens pre.length [t] = [t] :=
    leftFrom_eq_self_of_not_blank h htokens (by simpa using ht)
  have hcons := @leftFrom_append o tokens pre.length [t] us
  rwa [hfirst] at hcons

end Left

section Policy

/-- How blank lines around docstrings are dropped. -/
structure BlankPolicy (o : Options) (tokens : List Token) : Prop where
  /-- Formatting puts out the tokens that are left, some of them with new text. -/
  formatted : ∀ kept, (formatTokens o tokens).result = .ok kept →
    List.Forall₂ (fun t u => u = t.withText u.text) (leftFrom o tokens 0 tokens) kept
  /-- Above a formatted docstring that is not the module's no blank line is left, up to the end of
  the statement that it documents. -/
  above : ∀ b ∈ blocks tokens, b.IsEligible o tokens → b.subject ≠ .wholeModule →
    ∃ before newline gap docstring after,
      StandsAbove tokens b.docstring (before ++ [newline]) gap (docstring :: after) ∧
      newline.kind = .newline ∧ Documents b.subject (lastStatement before.reverse) ∧
      leftFrom o tokens 0 tokens = leftFrom o tokens 0 before ++ newline ::
        (gap.filter (fun t => !t.isBlankLine) ++
          docstring :: leftFrom o tokens (b.docstring + 1) after)
  /-- Below a formatted docstring of a class or a function no blank line is left if its body goes on,
  and one at most if it ends. -/
  below : ∀ b ∈ blocks tokens, b.IsEligible o tokens →
    b.subject = .classDef ∨ b.subject = .functionDef →
    ∀ pre comments newline rest, StandsBelow tokens b.docstring pre comments newline rest →
      ∃ skipped next more, rest = skipped ++ next :: more ∧
        (∀ t ∈ skipped, t.kind = .nl ∨ t.kind = .comment) ∧ next.kind ≠ .nl ∧ next.kind ≠ .comment ∧
        ∃ left, leftFrom o tokens 0 tokens = leftFrom o tokens 0 pre ++ (comments ++ newline :: left) ∧
          (left.takeWhile Token.isBlankLine).length =
            if next.kind = .dedent ∨ next.kind = .endMarker then
              min 1 (rest.takeWhile Token.isBlankLine).length
            else 0
  /-- What is dropped is a blank line above or below such a docstring. -/
  dropped : ∀ i ∈ droppedBlanks o (blocks tokens) (sites tokens), ∃ b ∈ blocks tokens,
    b.IsEligible o tokens ∧ ((b.subject ≠ .wholeModule ∧ IsBlankAbove tokens b.docstring i) ∨
      (b.subject = .classDef ∨ b.subject = .functionDef) ∧ IsBlankBelow tokens b.docstring i)
  /-- Nothing is dropped above the docstring of the module or one that is not formatted. -/
  kept_above : ∀ b ∈ blocks tokens, ¬ (b.IsEligible o tokens ∧ b.subject ≠ .wholeModule) →
    ∀ pre gap post, StandsAbove tokens b.docstring pre gap post →
      leftFrom o tokens 0 tokens =
        leftFrom o tokens 0 pre ++ (gap ++ leftFrom o tokens b.docstring post)
  /-- Nothing is dropped right below the docstring of the module or an assignment, or one that is not
  formatted. -/
  kept_below : ∀ b ∈ blocks tokens,
    ¬ (b.IsEligible o tokens ∧ (b.subject = .classDef ∨ b.subject = .functionDef)) →
    ∀ pre comments newline blanks post,
      StandsBelow tokens b.docstring pre comments newline (blanks ++ post) →
      (∀ t ∈ blanks, t.isBlankLine = true) →
      leftFrom o tokens 0 tokens = leftFrom o tokens 0 pre ++ (comments ++ newline ::
        (blanks ++ leftFrom o tokens (b.docstring + comments.length + 2 + blanks.length) post))

variable {o : Options} {s : Text} {tokens pre gap post comments rest : List Token} {newline : Token}
  {site : Site} {b : Block}

private theorem forall₂_withoutIndices {α β : Type} {R : α → β → Prop} {l : List α} {m : List β}
    (h : List.Forall₂ R l m) (dropped : List Nat) (index : Nat) :
    List.Forall₂ R (withoutIndices dropped index l) (withoutIndices dropped index m) := by
  induction h generalizing index with
  | nil => exact List.Forall₂.nil
  | cons hfirst _ ih =>
    rw [withoutIndices, withoutIndices]
    split
    · exact ih (index + 1)
    · exact List.Forall₂.cons hfirst (ih (index + 1))

private theorem forall₂_formatTokens (h : tokenize s = .ok tokens) {kept : List Token}
    (hkept : (formatTokens o tokens).result = .ok kept) :
    List.Forall₂ (fun t u => u = t.withText u.text) (leftFrom o tokens 0 tokens) kept := by
  simp only [formatTokens, bind, Traced.bind, Traced.reportAll] at hkept
  cases hformat : (formatSites o ((blocks tokens).map Block.docstring) (sites tokens)).result with
  | error fault =>
    rw [hformat] at hkept
    cases hkept
  | ok ts =>
    rw [hformat] at hkept
    cases hkept
    apply forall₂_withoutIndices
    have hsites : List.Forall₂ (fun site t => t = site.token.withText t.text) (sites tokens) ts := by
      have hformatted := List.forall₂_iff_zip.mp (forall₂_formatSites hformat)
      refine List.forall₂_iff_zip.mpr ⟨hformatted.1, ?_⟩
      intro site t hzip
      have hsite := (List.of_mem_zip hzip).1
      exact (text_ne_iff (kind_before_ne_encoding h hsite) (hformatted.2 hzip)).1
    rw [← token_sitesFrom 0 [] tokens, List.forall₂_map_left_iff]
    exact hsites

private theorem StandsAbove.leftFrom_eq (h : StandsAbove tokens b.docstring pre gap post) :
    leftFrom o tokens 0 tokens = leftFrom o tokens 0 pre ++
      (leftFrom o tokens pre.length gap ++ leftFrom o tokens b.docstring post) := by
  calc leftFrom o tokens 0 tokens
      = leftFrom o tokens 0 (pre ++ (gap ++ post)) := congrArg (leftFrom o tokens 0) h.tokens_eq
    _ = _ := by rw [leftFrom_append, leftFrom_append, Nat.zero_add, h.length_eq]

private theorem StandsBelow.leftFrom_eq (htokens : tokenize s = .ok tokens)
    (h : StandsBelow tokens b.docstring pre comments newline rest) :
    leftFrom o tokens 0 tokens = leftFrom o tokens 0 pre ++ (comments ++ newline ::
      leftFrom o tokens (b.docstring + comments.length + 2) rest) := by
  have hline : leftFrom o tokens pre.length (comments ++ [newline]) = comments ++ [newline] := by
    have hsplit : tokens = pre ++ ((comments ++ [newline]) ++ rest) := by
      rw [h.tokens_eq]
      simp
    apply leftFrom_eq_self_of_not_blank htokens hsplit
    intro t ht
    rcases List.mem_append.mp ht with ht | ht
    · rw [Token.isBlankLine, h.comment t ht]
      rfl
    · rw [List.mem_singleton.mp ht, isBlankLine_of_newline h.ended]
  calc leftFrom o tokens 0 tokens
      = leftFrom o tokens 0 (pre ++ ((comments ++ [newline]) ++ rest)) := by
        rw [List.append_assoc, List.singleton_append, ← h.tokens_eq]
    _ = leftFrom o tokens 0 pre ++ ((comments ++ [newline]) ++
          leftFrom o tokens (pre.length + (comments ++ [newline]).length) rest) := by
        rw [leftFrom_append, leftFrom_append, Nat.zero_add, hline]
    _ = _ := by
      have hlength : pre.length + (comments ++ [newline]).length =
          b.docstring + comments.length + 2 := by
        rw [h.length_eq, List.length_append, List.length_singleton]
        omega
      rw [hlength, List.append_assoc, List.singleton_append]

private theorem leftFrom_gap (h : tokenize s = .ok tokens) (hat : b.IsAt tokens site)
    (habove : StandsAbove tokens b.docstring pre gap post) :
    (b.IsEligible o tokens ∧ b.subject ≠ .wholeModule →
      leftFrom o tokens pre.length gap = gap.filter (fun t => !t.isBlankLine)) ∧
    (¬ (b.IsEligible o tokens ∧ b.subject ≠ .wholeModule) →
      leftFrom o tokens pre.length gap = gap) := by
  have hblank : ∀ early t late, gap = early ++ t :: late →
      pre.length + early.length ∈ droppedBlanks o (blocks tokens) (sites tokens) →
        t.isBlankLine = true := by
    rintro early t late rfl hdropped
    rw [← List.length_append] at hdropped
    exact ((blank_of_dropped h hdropped).of_split
      (show tokens = (pre ++ early) ++ t :: (late ++ post) by rw [habove.tokens_eq]; simp)).1
  have hiff : ∀ early t late, gap = early ++ t :: late → t.isBlankLine = true →
      (pre.length + early.length ∈ droppedBlanks o (blocks tokens) (sites tokens) ↔
        b.IsEligible o tokens ∧ b.subject ≠ .wholeModule) := by
    rintro early t late rfl ht
    rw [hat.docstring_eq] at habove
    exact IsBlankAbove.mem_droppedBlanks_iff h hat ⟨pre, early, t, late, post, habove, rfl, ht⟩
  constructor
  · intro hformatted
    apply leftFrom_eq_filter
    intro early t late hgap
    rw [Bool.not_eq_false']
    exact ⟨hblank early t late hgap, fun ht => (hiff early t late hgap ht).mpr hformatted⟩
  · intro hother
    apply leftFrom_eq_self
    intro early t late hgap hdropped
    exact hother ((hiff early t late hgap (hblank early t late hgap hdropped)).mp hdropped)

private theorem leftFrom_blanks (h : tokenize s = .ok tokens) (hat : b.IsAt tokens site)
    (hother : ¬ (b.IsEligible o tokens ∧ (b.subject = .classDef ∨ b.subject = .functionDef)))
    {blanks : List Token} (hblanks : ∀ t ∈ blanks, t.isBlankLine = true)
    (hbelow : StandsBelow tokens b.docstring pre comments newline (blanks ++ post)) :
    leftFrom o tokens (b.docstring + comments.length + 2) blanks = blanks := by
  apply leftFrom_eq_self
  rintro early t late rfl
  have hi : IsBlankBelow tokens site.index (b.docstring + comments.length + 2 + early.length) := by
    refine ⟨pre, comments, newline, early, t, late ++ post, hblanks t (by simp), ?_,
      fun u hu => hblanks u (by simp [hu]), by rw [hat.docstring_eq]⟩
    rw [← hat.docstring_eq]
    simpa using hbelow
  rw [hi.mem_droppedBlanks_iff h hat]
  exact fun hboth => hother hboth.1

private theorem leftFrom_run (h : tokenize s = .ok tokens) (hat : b.IsAt tokens site)
    (heligible : b.IsEligible o tokens) (hsubject : b.subject = .classDef ∨ b.subject = .functionDef)
    (hbelow : StandsBelow tokens b.docstring pre comments newline rest) :
    leftFrom o tokens (b.docstring + comments.length + 2) (rest.takeWhile Token.isBlankLine) =
      (rest.takeWhile Token.isBlankLine).take (if endsBody rest then 1 else 0) := by
  have hiff : ∀ j, j < (rest.takeWhile Token.isBlankLine).length →
      (b.docstring + comments.length + 2 + j ∈ droppedBlanks o (blocks tokens) (sites tokens) ↔
        (endsBody rest = true → j ≠ 0)) := by
    intro j hj
    rw [hat.docstring_eq] at hbelow ⊢
    have hi := hbelow.isBlankBelow_iff.mpr ⟨j, rfl, hj⟩
    rw [hi.mem_droppedBlanks_iff h hat, mem_blanksAfter_iff hat.mem hbelow]
    constructor
    · rintro ⟨-, j', hindex, -, hfirst⟩
      obtain rfl : j' = j := by omega
      exact hfirst
    · intro hfirst
      exact ⟨⟨heligible, hsubject⟩, j, rfl, hj, hfirst⟩
  generalize rest.takeWhile Token.isBlankLine = run at hiff
  by_cases hends : endsBody rest = true
  · rw [if_pos hends]
    cases run with
    | nil => rfl
    | cons t run =>
      have hfirst : leftFrom o tokens (b.docstring + comments.length + 2) [t] = [t] := by
        apply leftFrom_eq_self
        intro early u late hsplit hdropped
        have hlength := congrArg List.length hsplit
        rw [List.length_singleton, List.length_append, List.length_cons] at hlength
        exact (hiff early.length (by simp; omega)).mp hdropped hends (by omega)
      have hothers : leftFrom o tokens (b.docstring + comments.length + 2 + 1) run = [] := by
        apply leftFrom_eq_nil
        rintro early u late rfl
        rw [Nat.add_assoc _ 1, hiff (1 + early.length) (by simp; omega)]
        omega
      rw [List.take_succ_cons, List.take_zero, ← List.singleton_append, leftFrom_append, hfirst,
        List.length_singleton, hothers, List.append_nil]
  · rw [if_neg hends, List.take_zero]
    apply leftFrom_eq_nil
    rintro early u late rfl
    exact (hiff early.length (by simp)).mpr fun htrue => absurd htrue hends

private theorem StandsBelow.exists_next (h : tokenize s = .ok tokens) {index : Nat}
    (hbelow : StandsBelow tokens index pre comments newline rest) :
    ∃ skipped next more, rest = skipped ++ next :: more ∧
      (∀ t ∈ skipped, t.kind = .nl ∨ t.kind = .comment) ∧ next.kind ≠ .nl ∧ next.kind ≠ .comment ∧
      (endsBody rest = true ↔ next.kind = .dedent ∨ next.kind = .endMarker) := by
  obtain ⟨last, hlast, hmarker⟩ := getLast?_tokens h
  have hmem : last ∈ rest := by
    have hcons : last ∈ newline :: rest := by
      rw [hbelow.tokens_eq, ← List.append_assoc, List.getLast?_append_of_ne_nil _ (by simp)] at hlast
      exact List.mem_of_getLast? hlast
    rcases List.mem_cons.mp hcons with rfl | hmem
    · rw [hbelow.ended] at hmarker
      cases hmarker
    · exact hmem
  cases hfind : rest.find? (fun t => t.kind != .nl && t.kind != .comment) with
  | none =>
    have hskipped := List.find?_eq_none.mp hfind last hmem
    simp [hmarker] at hskipped
  | some next =>
    obtain ⟨hnext, skipped, more, hrest, hskipped⟩ := List.find?_eq_some_iff_append.mp hfind
    rw [Bool.and_eq_true, bne_iff_ne, bne_iff_ne] at hnext
    refine ⟨skipped, next, more, hrest, ?_, hnext.1, hnext.2, ?_⟩
    · intro t ht
      have hkind := hskipped t ht
      by_cases hnl : t.kind = .nl
      · exact Or.inl hnl
      · exact Or.inr (by simpa [hnl] using hkind)
    · rw [endsBody, hfind]
      simp

private theorem takeWhile_leftFrom (h : tokenize s = .ok tokens) (hat : b.IsAt tokens site)
    (heligible : b.IsEligible o tokens) (hsubject : b.subject = .classDef ∨ b.subject = .functionDef)
    (hbelow : StandsBelow tokens b.docstring pre comments newline rest) :
    (leftFrom o tokens (b.docstring + comments.length + 2) rest).takeWhile Token.isBlankLine =
      (rest.takeWhile Token.isBlankLine).take (if endsBody rest then 1 else 0) := by
  have hrun := leftFrom_run h hat heligible hsubject hbelow
  have hblanks : ∀ t ∈ rest.takeWhile Token.isBlankLine, t.isBlankLine = true :=
    fun t ht => List.all_eq_true.mp List.all_takeWhile t ht
  have hstop := List.head?_dropWhile_not Token.isBlankLine rest
  have hrest : rest = rest.takeWhile Token.isBlankLine ++ rest.dropWhile Token.isBlankLine :=
    List.takeWhile_append_dropWhile.symm
  generalize rest.takeWhile Token.isBlankLine = run at hrun hblanks hrest
  generalize rest.dropWhile Token.isBlankLine = others at hstop hrest
  have hleft : leftFrom o tokens (b.docstring + comments.length + 2) rest =
      run.take (if endsBody rest then 1 else 0) ++
        leftFrom o tokens (b.docstring + comments.length + 2 + run.length) others := by
    rw [← hrun, ← leftFrom_append, ← hrest]
  rw [hleft]
  apply takeWhile_append_of_stop
  · exact fun t ht => hblanks t (List.mem_of_mem_take ht)
  · -- The first token after the run is not that of a blank line, so it is left.
    intro t ht
    cases others with
    | nil => cases ht
    | cons u others =>
      have hu : u.isBlankLine = false := by simpa using hstop
      have hsplit : tokens = (pre ++ (comments ++ newline :: run)) ++ u :: others := by
        rw [hbelow.tokens_eq, hrest]
        simp
      have hlength : b.docstring + comments.length + 2 + run.length =
          (pre ++ (comments ++ newline :: run)).length := by
        simp only [List.length_append, List.length_cons, hbelow.length_eq]
        omega
      rw [hlength, leftFrom_cons_of_not_blank h hsplit hu] at ht
      obtain rfl := Option.some.inj ht
      exact hu

/-- Around docstrings blank lines are dropped as the policy says, for every source and all options. -/
theorem blank_lines_around_blocks (o : Options) (h : tokenize s = .ok tokens) :
    BlankPolicy o tokens where
  formatted kept hkept := forall₂_formatTokens h hkept
  above b hb heligible hsubject := by
    obtain ⟨site, hat⟩ := (mem_blocks_iff h).mp hb
    obtain ⟨pre, gap, habove, -, -, hstatement⟩ := exists_standsAbove h hat.mem hat.block
    rcases hstatement with ⟨-, hmodule⟩ | ⟨before, newline, rfl, hnewline, hdocuments⟩
    · exact absurd hmodule hsubject
    · rw [← hat.docstring_eq] at habove
      refine ⟨before, newline, gap, site.token, site.after, habove, hnewline, hdocuments, ?_⟩
      have hdocstring : tokens = (before ++ [newline] ++ gap) ++ site.token :: site.after := by
        rw [habove.tokens_eq]
        simp
      have hend : tokens = before ++ newline :: (gap ++ site.token :: site.after) := by
        rw [habove.tokens_eq]
        simp
      have hstring : site.token.isBlankLine = false := by
        rw [Token.isBlankLine, hat.kind_eq]
        rfl
      have hindex : b.docstring = (before ++ [newline] ++ gap).length := by
        rw [← habove.length_eq]
        simp only [List.length_append]
      rw [habove.leftFrom_eq, (leftFrom_gap h hat habove).1 ⟨heligible, hsubject⟩, leftFrom_append,
        Nat.zero_add, leftFrom_cons_of_not_blank h hend (isBlankLine_of_newline hnewline), hindex,
        leftFrom_cons_of_not_blank h hdocstring hstring, List.append_assoc]
      rfl
  below b hb heligible hsubject pre comments newline rest hbelow := by
    obtain ⟨site, hat⟩ := (mem_blocks_iff h).mp hb
    obtain ⟨skipped, next, more, hrest, hskipped, hnl, hcomment, hends⟩ := hbelow.exists_next h
    refine ⟨skipped, next, more, hrest, hskipped, hnl, hcomment, _, hbelow.leftFrom_eq h, ?_⟩
    rw [takeWhile_leftFrom h hat heligible hsubject hbelow, List.length_take]
    by_cases hlast : next.kind = .dedent ∨ next.kind = .endMarker
    · rw [if_pos (hends.mpr hlast), if_pos hlast]
    · rw [if_neg (fun hbody => hlast (hends.mp hbody)), if_neg hlast, Nat.zero_min]
  dropped i hi := by
    obtain ⟨b, site, hat, heligible, haround⟩ := (mem_droppedBlanks_iff_isAt h).mp hi
    refine ⟨b, (mem_blocks_iff h).mpr ⟨site, hat⟩, heligible, ?_⟩
    rw [hat.docstring_eq]
    exact haround.imp_right (And.imp_right (isBlankBelow_of_mem_blanksAfter hat.mem))
  kept_above b hb hother pre gap post habove := by
    obtain ⟨site, hat⟩ := (mem_blocks_iff h).mp hb
    rw [habove.leftFrom_eq, (leftFrom_gap h hat habove).2 hother]
  kept_below b hb hother pre comments newline blanks post hbelow hblanks := by
    obtain ⟨site, hat⟩ := (mem_blocks_iff h).mp hb
    rw [hbelow.leftFrom_eq h, leftFrom_append, leftFrom_blanks h hat hother hblanks hbelow]

/-- Docstrings of a module, a class with a comment, an attribute, a function with nothing more in it,
and one out of range. -/
theorem blank_lines_around_blocks_of_class :
    let s : Text :=
      "'''M.'''\n\nclass A:\n\n    # note\n\n    '''A.'''\n\n    x = 1\n\n".toList ++
        "    '''X.'''\n\ndef f():\n    '''F.'''  # why\n\n\n".toList ++
        "def g():\n\n    '''G.'''\n\n    return 1\n".toList
    let o : Options := { lineRange := some ⟨1, 17⟩ }
    ∃ tokens, tokenize s = .ok tokens ∧
      (blocks tokens).map (fun b => (b.subject, b.docstring)) =
        [(.wholeModule, 0), (.classDef, 12), (.assignment, 20), (.functionDef, 31),
          (.functionDef, 45)] ∧
      droppedBlanks o (blocks tokens) (sites tokens) = [10, 7, 14, 19, 35] ∧
      BlankPolicy o tokens := by
  intro s o
  have hfacts : (tokenize s).toOption.map (fun tokens =>
      ((blocks tokens).map (fun b => (b.subject, b.docstring)),
        droppedBlanks o (blocks tokens) (sites tokens))) =
          some ([(.wholeModule, 0), (.classDef, 12), (.assignment, 20), (.functionDef, 31),
            (.functionDef, 45)], [10, 7, 14, 19, 35]) := by
    decide +kernel
  cases htokens : tokenize s with
  | error cause =>
    rw [htokens] at hfacts
    cases hfacts
  | ok tokens =>
    rw [htokens] at hfacts
    obtain ⟨hblocks, hdropped⟩ := Prod.mk.inj (Option.some.inj hfacts)
    exact ⟨tokens, rfl, hblocks, hdropped, blank_lines_around_blocks o htokens⟩

end Policy

end DocstringFormat.Source
