import DocstringFormat.Proofs.Source.Scan
import DocstringFormat.Source.Format

/-!
Which tokens the layout of docstrings drops.

A docstring is a statement of its own, so it stands outside all brackets (`depth_of_candidate`).
The tokens that are dropped are reached from it over layout and comments only.  Hence each of them
is the line break of a blank line outside all brackets (`blank_of_dropped`).
-/

set_option autoImplicit false

namespace DocstringFormat.Source

section Sites

def numbered (index : Nat) : List Token → List Numbered
  | [] => []
  | t :: ts => ⟨index, t⟩ :: numbered (index + 1) ts

theorem mem_sitesFrom {index : Nat} {before : List Numbered} {tokens : List Token} {site : Site}
    (h : site ∈ sitesFrom index before tokens) :
    ∃ pre, tokens = pre ++ site.token :: site.after ∧ site.index = index + pre.length ∧
      site.before = (numbered index pre).reverse ++ before := by
  induction tokens generalizing index before with
  | nil => cases h
  | cons t tokens ih =>
    rcases List.mem_cons.mp h with rfl | h
    · exact ⟨[], rfl, rfl, rfl⟩
    · obtain ⟨pre, htokens, hindex, hbefore⟩ := ih h
      refine ⟨t :: pre, by rw [htokens]; rfl, ?_, ?_⟩
      · rw [hindex, List.length_cons]
        omega
      · rw [hbefore, numbered, List.reverse_cons, List.append_assoc]
        rfl

theorem mem_sites {tokens : List Token} {site : Site} (h : site ∈ sites tokens) :
    ∃ pre, tokens = pre ++ site.token :: site.after ∧ site.index = pre.length ∧
      site.before = (numbered 0 pre).reverse := by
  obtain ⟨pre, htokens, hindex, hbefore⟩ := mem_sitesFrom h
  refine ⟨pre, htokens, ?_, ?_⟩
  · rw [hindex, Nat.zero_add]
  · rw [hbefore, List.append_nil]

theorem map_token_numbered (index : Nat) (tokens : List Token) :
    (numbered index tokens).map Numbered.token = tokens := by
  induction tokens generalizing index with
  | nil => rfl
  | cons t tokens ih => rw [numbered, List.map_cons, ih]

theorem numbered_eq_append {index : Nat} {tokens : List Token} {us vs : List Numbered}
    {n : Numbered} (h : numbered index tokens = us ++ n :: vs) :
    tokens = us.map Numbered.token ++ n.token :: vs.map Numbered.token ∧
      n.index = index + us.length := by
  induction us generalizing index tokens with
  | nil =>
    cases tokens with
    | nil => cases h
    | cons t tokens =>
      obtain ⟨rfl, hvs⟩ := List.cons.inj h
      refine ⟨?_, rfl⟩
      rw [← hvs, map_token_numbered]
      rfl
  | cons u us ih =>
    cases tokens with
    | nil => cases h
    | cons t tokens =>
      obtain ⟨rfl, hrest⟩ := List.cons.inj h
      obtain ⟨htokens, hindex⟩ := ih hrest
      refine ⟨by rw [htokens]; rfl, ?_⟩
      rw [hindex, List.length_cons]
      omega

end Sites

section Depth

/-- The number of brackets that tokens leave open. -/
def depthOf (tokens : List Token) : Nat :=
  tokens.foldl Token.depthAfter 0

private theorem foldl_depthAfter {tokens : List Token} (h : ∀ t ∈ tokens, t.kind ≠ .op)
    (depth : Nat) :
    tokens.foldl Token.depthAfter depth = depth := by
  induction tokens with
  | nil => rfl
  | cons t tokens ih =>
    have ht : t.depthAfter depth = depth := by
      rw [Token.depthAfter, depthAfterToken, if_neg (h t (by simp))]
    rw [List.foldl_cons, ht, ih fun u hu => h u (List.mem_cons_of_mem t hu)]

theorem depthOf_append {ts us : List Token} (h : ∀ t ∈ us, t.kind ≠ .op) :
    depthOf (ts ++ us) = depthOf ts := by
  rw [depthOf, List.foldl_append, foldl_depthAfter h]
  rfl

theorem Laid.fits {depth last : Nat} {x rest : Text} {ps qs : List Piece} {p : Piece}
    (h : Laid depth x (ps ++ p :: qs) rest last) :
    p.Fits ((ps.map Piece.token).foldl Token.depthAfter depth) (x ++ spell ps)
      (spell qs ++ rest) := by
  induction ps generalizing depth x with
  | nil =>
    cases h with
    | cons hfits _ => simpa using hfits
  | cons q ps ih =>
    cases h with
    | cons _ hrest =>
      have hp := ih hrest
      rw [List.append_assoc] at hp
      exact hp

theorem Laid.depth_eq {depth last : Nat} {x rest : Text} {ps : List Piece}
    (h : Laid depth x ps rest last) :
    last = (ps.map Piece.token).foldl Token.depthAfter depth := by
  induction h with
  | nil => rfl
  | cons _ _ ih => exact ih

theorem kind_of_mem_closingTokens {tokens : List Token} {st : Scanner} {rows : Nat}
    {lastLine : Text} {t : Token} (h : t ∈ closingTokens tokens st rows lastLine) :
    t.kind = .newline ∨ t.kind = .dedent ∨ t.kind = .endMarker := by
  simp only [closingTokens, List.mem_append, List.mem_map, List.mem_singleton] at h
  rcases h with (h | ⟨_, -, rfl⟩) | rfl
  · split at h
    · rw [List.mem_singleton.mp h]
      exact Or.inl rfl
    · cases h
  · exact Or.inr (Or.inl rfl)
  · exact Or.inr (Or.inr rfl)

variable {s : Text} {tokens pre post : List Token} {t : Token}

private theorem depth_of_lineEnd (h : tokenize s = .ok tokens) (hsplit : tokens = pre ++ t :: post)
    (ht : t.kind = .newline ∨ t.kind = .endMarker) : depthOf pre = 0 := by
  obtain ⟨scanned, st, hscan, hdepth, -, -, hclosing⟩ := tokenize_eq_ok h
  rw [← List.take_length (l := s.rawLines)] at hscan
  obtain ⟨ps, tail, pend, hreads, -⟩ := reads_of_scanLines hscan
  have hscanned : scanned = ps.map Piece.token := hreads.tokens
  have hlast : depthOf scanned = 0 := by
    have hlaid := hreads.laid.depth_eq
    rw [← hscanned] at hlaid
    exact hlaid.symm.trans hdepth
  rcases List.append_eq_append_iff.mp (hsplit.symm.trans hclosing) with
    ⟨mid, hmid, hpost⟩ | ⟨mid, hmid, hmore⟩
  · -- The token is a scanned one, or the first of those that close the source.
    cases mid with
    | nil =>
      rw [List.append_nil] at hmid
      rw [← hmid, hlast]
    | cons u mid =>
      obtain ⟨rfl, -⟩ := List.cons.inj hpost
      rw [hscanned] at hmid
      obtain ⟨qs, rs, rfl, rfl, hrs⟩ := List.map_eq_append_iff.mp hmid
      obtain ⟨p, rs, rfl, rfl, -⟩ := List.map_eq_cons_iff.mp hrs
      have hlawful := hreads.laid.fits.lawful
      rcases ht with hkind | hkind
      · simp only [Token.Lawful, hkind] at hlawful
        exact hlawful.1
      · simp [Token.Lawful, Lexical, hkind] at hlawful
  · have hkinds : ∀ u ∈ mid, u.kind ≠ .op := by
      intro u hu
      have hmem : u ∈ mid ++ t :: post := List.mem_append_left _ hu
      rw [← hmore] at hmem
      rcases kind_of_mem_closingTokens hmem with hkind | hkind | hkind <;> simp [hkind]
    rw [hmid, depthOf_append hkinds, hlast]

theorem getLast?_tokens (h : tokenize s = .ok tokens) :
    ∃ t, tokens.getLast? = some t ∧ t.kind = .endMarker := by
  obtain ⟨scanned, st, -, -, -, -, rfl⟩ := tokenize_eq_ok h
  exact ⟨⟨.endMarker, [], ⟨s.rawLines.length + 1, 0⟩, ⟨s.rawLines.length + 1, 0⟩, []⟩,
    by simp [closingTokens], rfl⟩

end Depth

section Dropped

variable {s : Text} {tokens pre : List Token} {site : Site}

/-- A string that could be a docstring stands outside all brackets. -/
theorem depth_of_candidate (h : tokenize s = .ok tokens)
    (hsplit : tokens = pre ++ site.token :: site.after) (hsite : site.isCandidate = true) :
    depthOf pre = 0 := by
  simp only [Site.isCandidate, Bool.and_eq_true, beq_iff_eq] at hsite
  obtain ⟨⟨⟨hkind, -⟩, -⟩, hends⟩ := hsite
  cases hfind : site.after.find? (fun t => t.kind != .comment) with
  | none =>
    exfalso
    obtain ⟨t, ht, hmarker⟩ := getLast?_tokens h
    have hmem : t ∈ site.token :: site.after := by
      rw [hsplit, List.getLast?_append_of_ne_nil pre (by simp)] at ht
      exact List.mem_of_getLast? ht
    rcases List.mem_cons.mp hmem with rfl | hmem
    · rw [hkind] at hmarker
      cases hmarker
    · have hcomment := List.find?_eq_none.mp hfind t hmem
      simp [hmarker] at hcomment
  | some u =>
    rw [endsStatement, hfind] at hends
    obtain ⟨-, comments, rest, hafter, hcomments⟩ := List.find?_eq_some_iff_append.mp hfind
    have hend : u.kind = .newline ∨ u.kind = .endMarker := by simpa using hends
    have htokens : tokens = (pre ++ site.token :: comments) ++ u :: rest := by
      rw [hsplit, hafter]
      simp
    have hdepth := depth_of_lineEnd h htokens hend
    rw [depthOf_append] at hdepth
    · exact hdepth
    · intro t ht
      rcases List.mem_cons.mp ht with rfl | ht
      · simp [hkind]
      · have hcomment := hcomments t ht
        simp only [Bool.not_eq_true', bne_eq_false_iff_eq] at hcomment
        simp [hcomment]

/-- The token with a number is the line break of a blank line outside all brackets. -/
def IsBlankAt (tokens : List Token) (index : Nat) : Prop :=
  ∃ pre t post, tokens = pre ++ t :: post ∧ pre.length = index ∧ t.isBlankLine = true ∧
    depthOf pre = 0

theorem kind_of_isBlankLine {t : Token} (h : t.isBlankLine = true) : t.kind = .nl := by
  simp only [Token.isBlankLine, Bool.and_eq_true, beq_iff_eq] at h
  exact h.1

theorem mem_blanksBefore_iff {i : Nat} :
    i ∈ blanksBefore site ↔
      ∃ us n vs, site.before = us ++ n :: vs ∧ n.index = i ∧ n.token.isBlankLine = true ∧
        ∀ m ∈ us, m.token.kind ∈ [TokenKind.indent, .nl, .comment] := by
  simp only [blanksBefore, List.mem_map, List.mem_filter]
  constructor
  · rintro ⟨n, ⟨hn, hblank⟩, rfl⟩
    obtain ⟨us, vs, htake⟩ := List.append_of_mem hn
    obtain ⟨later, hlater⟩ : ∃ later, us ++ n :: vs ++ later = site.before :=
      ⟨_, by rw [← htake]; exact List.takeWhile_append_dropWhile⟩
    refine ⟨us, n, vs ++ later, ?_, rfl, hblank, ?_⟩
    · rw [← hlater, List.append_assoc, List.cons_append]
    · intro m hm
      have hmem := List.mem_append_left (n :: vs) hm
      rw [← htake] at hmem
      simpa using List.all_eq_true.mp List.all_takeWhile m hmem
  · rintro ⟨us, n, vs, hbefore, rfl, hblank, hus⟩
    refine ⟨n, ⟨?_, hblank⟩, rfl⟩
    rw [hbefore, List.takeWhile_append_of_pos (by simpa using hus),
      List.takeWhile_cons_of_pos (by simp [kind_of_isBlankLine hblank])]
    simp

private theorem blank_of_mem_blanksBefore (hsplit : tokens = pre ++ site.token :: site.after)
    (hbefore : site.before = (numbered 0 pre).reverse) (hdepth : depthOf pre = 0) {i : Nat}
    (hi : i ∈ blanksBefore site) : IsBlankAt tokens i := by
  obtain ⟨us, n, vs, hsite, rfl, hblank, hlayout⟩ := mem_blanksBefore_iff.mp hi
  have hnumbered : numbered 0 pre = vs.reverse ++ n :: us.reverse := by
    rw [← List.reverse_reverse (numbered 0 pre), ← hbefore, hsite]
    simp
  obtain ⟨hpre, hindex⟩ := numbered_eq_append hnumbered
  generalize vs.reverse = earlier at hpre hindex
  refine ⟨earlier.map Numbered.token, n.token,
    us.reverse.map Numbered.token ++ site.token :: site.after, ?_, ?_, hblank, ?_⟩
  · rw [hsplit, hpre]
    simp
  · rw [hindex, List.length_map, Nat.zero_add]
  · rw [hpre, depthOf_append] at hdepth
    · exact hdepth
    · intro t ht
      rcases List.mem_cons.mp ht with rfl | ht
      · simp [kind_of_isBlankLine hblank]
      · obtain ⟨m, hm, rfl⟩ := List.mem_map.mp ht
        have hkind := hlayout m (List.mem_reverse.mp hm)
        intro hop
        simp [hop] at hkind

theorem exists_split_of_mem_blanksAfter {i : Nat} (hi : i ∈ blanksAfter site) :
    ∃ comments newline rest, site.after = comments ++ newline :: rest ∧
      (∀ t ∈ comments, t.kind = .comment) ∧ newline.kind = .newline := by
  simp only [blanksAfter] at hi
  split at hi
  · cases hi
  · rename_i newline rest hdrop
    split at hi
    · cases hi
    · rename_i hnewline
      refine ⟨site.after.takeWhile (fun t => t.kind == .comment), newline, rest, ?_, ?_, ?_⟩
      · have htake := List.prefix_iff_eq_take.mp
          ( List.takeWhile_prefix (l := site.after) (fun t => t.kind == .comment))
        conv_lhs => rw [← List.take_append_drop
          (site.after.takeWhile fun t => t.kind == .comment).length site.after, hdrop, ← htake]
      · intro t ht
        simpa using List.all_eq_true.mp List.all_takeWhile t ht
      · simpa using hnewline

theorem blanksAfter_of_split {comments rest : List Token} {newline : Token}
    (hafter : site.after = comments ++ newline :: rest)
    (hcomments : ∀ t ∈ comments, t.kind = .comment) (hnewline : newline.kind = .newline) :
    blanksAfter site =
      let kept := if endsBody (rest.dropWhile Token.isBlankLine) then 1 else 0
      (List.range ((rest.takeWhile Token.isBlankLine).length - kept)).map
        (fun i => site.index + comments.length + 2 + kept + i) := by
  have htake : (comments ++ newline :: rest).takeWhile (fun t => t.kind == .comment) = comments := by
    rw [List.takeWhile_append_of_pos (by simpa using hcomments),
      List.takeWhile_cons_of_neg (by simp [hnewline]), List.append_nil]
  have hdrop : rest.drop (rest.takeWhile Token.isBlankLine).length =
      rest.dropWhile Token.isBlankLine := by
    have hleft := @List.drop_left _ (rest.takeWhile Token.isBlankLine)
      (rest.dropWhile Token.isBlankLine)
    rwa [List.takeWhile_append_dropWhile] at hleft
  simp only [blanksAfter, hafter, htake, List.drop_left, hnewline, ne_eq, not_true_eq_false, if_false,
    hdrop]

private theorem blank_of_mem_blanksAfter (hsplit : tokens = pre ++ site.token :: site.after)
    (hindex : site.index = pre.length) (hkind : site.token.kind = .string)
    (hdepth : depthOf pre = 0) {i : Nat} (hi : i ∈ blanksAfter site) : IsBlankAt tokens i := by
  obtain ⟨comments, newline, rest, hafter, hcomments, hnewline⟩ := exists_split_of_mem_blanksAfter hi
  rw [blanksAfter_of_split hafter hcomments hnewline] at hi
  obtain ⟨j, hj, rfl⟩ := List.mem_map.mp hi
  have hj := List.mem_range.mp hj
  generalize (if endsBody _ then 1 else 0) = kept at hj ⊢
  have hblanks : ∀ t ∈ rest.takeWhile Token.isBlankLine, t.isBlankLine = true := by
    intro t ht
    exact List.all_eq_true.mp List.all_takeWhile t ht
  obtain ⟨others, hothers⟩ : ∃ others, rest = rest.takeWhile Token.isBlankLine ++ others :=
    ⟨_, List.takeWhile_append_dropWhile.symm⟩
  generalize rest.takeWhile Token.isBlankLine = blanks at hj hblanks hothers
  have hlt : kept + j < blanks.length := by omega
  have hrest : rest =
      blanks.take (kept + j) ++ blanks[kept + j] :: (blanks.drop (kept + j + 1) ++ others) := by
    rw [← List.cons_append, ← List.drop_eq_getElem_cons hlt, ← List.append_assoc,
      List.take_append_drop, hothers]
  refine ⟨pre ++ (site.token :: comments ++ newline :: blanks.take (kept + j)),
    blanks[kept + j], blanks.drop (kept + j + 1) ++ others,
    ?_, ?_, hblanks _ (List.getElem_mem hlt), ?_⟩
  · rw [hsplit, hafter, hrest]
    simp only [List.append_assoc, List.cons_append]
  · simp only [List.length_append, List.length_cons, List.length_take]
    omega
  · rw [depthOf_append, hdepth]
    intro t ht
    simp only [List.cons_append, List.mem_cons, List.mem_append] at ht
    rcases ht with rfl | ht | rfl | ht
    · simp [hkind]
    · simp [hcomments t ht]
    · simp [hnewline]
    · have hnl := kind_of_isBlankLine (hblanks t (List.mem_of_mem_take ht))
      simp [hnl]

/-- Only line breaks of blank lines outside all brackets are dropped. -/
theorem blank_of_dropped {o : Options} (h : tokenize s = .ok tokens) {i : Nat}
    (hi : i ∈ droppedBlanks o (blocks tokens) (sites tokens)) : IsBlankAt tokens i := by
  simp only [droppedBlanks, List.mem_flatMap, List.mem_filter] at hi
  obtain ⟨site, ⟨hsite, heligible⟩, hi⟩ := hi
  obtain ⟨pre, hsplit, hindex, hbefore⟩ := mem_sites hsite
  simp only [Site.isEligible, Bool.and_eq_true] at heligible
  have hcandidate := heligible.1.1
  have hdepth := depth_of_candidate h hsplit hcandidate
  have hkind : site.token.kind = .string := by
    simp only [Site.isCandidate, Bool.and_eq_true, beq_iff_eq] at hcandidate
    exact hcandidate.1.1.1
  split at hi
  · cases hi
  · rename_i b _
    cases hsubject : b.subject with
    | wholeModule =>
      rw [hsubject] at hi
      cases hi
    | assignment =>
      rw [hsubject] at hi
      exact blank_of_mem_blanksBefore hsplit hbefore hdepth hi
    | classDef | functionDef =>
      rw [hsubject] at hi
      rcases List.mem_append.mp hi with hi | hi
      · exact blank_of_mem_blanksBefore hsplit hbefore hdepth hi
      · exact blank_of_mem_blanksAfter hsplit hindex hkind hdepth hi

end Dropped

end DocstringFormat.Source
