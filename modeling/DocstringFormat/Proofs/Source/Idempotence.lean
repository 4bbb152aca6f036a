import DocstringFormat.Proofs.Source.Correspondence
import DocstringFormat.Proofs.Source.LineEndings
import DocstringFormat.Proofs.Source.Unchanged

/-!
Formatting twice.

The blank lines around a docstring that formatting may drop are gone after the first time
(`blanksBefore_eq_nil`, `blanksAfter_eq_nil`), so none is dropped the second time
(`droppedBlanks_eq_nil`).  What is left are strings: a formatted source is formatted to itself
exactly if it is settled, and the strings that may keep it from that are docstrings whose new text is
not formatted to itself and strings that a dropped blank line has moved up to a statement
(`reformatted_iff_settled`).
-/

set_option autoImplicit false

namespace DocstringFormat.Source

open Docstring (Subject)

section Dropped

variable {o : Options} {s : Text} {tokens : List Token} {site : Site}

private theorem find?_blocks (h : tokenize s = .ok tokens) (hsite : site ∈ sites tokens)
    (hcandidate : site.isCandidate = true) :
    (blocks tokens).find? (fun b => b.docstring == site.index) = site.block? := by
  have hblock : ∀ b ∈ blocks tokens, b.docstring = site.index → site.block? = some b := by
    intro b hb hindex
    rw [blocks_eq h] at hb
    obtain ⟨a, ha, hblock⟩ := List.mem_filterMap.mp hb
    rw [docstring_block? hblock] at hindex
    rwa [site_ext (List.mem_filter.mp ha).1 hsite hindex] at hblock
  cases hfind : (blocks tokens).find? (fun b => b.docstring == site.index) with
  | some b =>
    have hindex : b.docstring = site.index := by simpa using List.find?_some hfind
    exact (hblock b (List.mem_of_find?_eq_some hfind) hindex).symm
  | none =>
    cases hsome : site.block? with
    | none => rfl
    | some b =>
      have hb : b ∈ blocks tokens := by
        rw [blocks_eq h]
        exact List.mem_filterMap.mpr ⟨site, List.mem_filter.mpr ⟨hsite, hcandidate⟩, hsome⟩
      have hne := List.find?_eq_none.mp hfind b hb
      exact absurd (docstring_block? hsome) (by simpa using hne)

theorem mem_droppedBlanks_iff (h : tokenize s = .ok tokens) {i : Nat} :
    i ∈ droppedBlanks o (blocks tokens) (sites tokens) ↔
      ∃ site ∈ sites tokens, site.IsRewritten o ((blocks tokens).map Block.docstring) ∧
        ∃ subject, site.subject? = some subject ∧ i ∈ blanksAround subject site := by
  simp only [droppedBlanks, List.mem_flatMap, List.mem_filter, and_assoc]
  refine exists_congr fun site => and_congr_right fun hsite => ?_
  rw [isEligible_iff (kind_before_ne_encoding h hsite)]
  refine and_congr_right fun hrewritten => ?_
  rw [find?_blocks h hsite hrewritten.1, ← subject_block?]
  cases site.block? with
  | none => simp
  | some b => simp

end Dropped

section Before

variable {o : Options} {s : Text} {tokens : List Token} {site site' : Site}

private theorem isBlankLine_of_becomes {t u : Token} {r : Revision} (h : t.Becomes u r) :
    u.isBlankLine = t.isBlankLine := by
  have hkind := h.kind
  by_cases hnl : t.kind = .nl
  · cases r with
    | keep =>
      have hline := Token.Kept.line h
      rw [hnl] at hline
      have hmoved := hline.resolve_right (by simp)
      rw [Token.isBlankLine, Token.isBlankLine, hkind, hmoved.line]
    | drop => exact h.elim
    | replace text =>
      have hstring := (Token.Replaced.kind h).1
      rw [hnl] at hstring
      cases hstring
  · rw [Token.isBlankLine, Token.isBlankLine, hkind, beq_false_of_ne hnl, Bool.false_and,
      Bool.false_and]

private theorem blanksBefore_eq_nil (h : tokenize s = .ok tokens) (hsite : site ∈ sites tokens)
    (hbecomes : site.Becomes (revision o tokens) site')
    (hdropped : ∀ i ∈ blanksBefore site, revision o tokens i = .drop) : blanksBefore site' = [] := by
  obtain ⟨pre, htokens, -, hbefore⟩ := mem_sites hsite
  rw [List.eq_nil_iff_forall_not_mem]
  intro i hi
  obtain ⟨us, n, vs, hbefore', -, hblank, hlayout⟩ := mem_blanksBefore_iff.mp hi
  have hrevised := hbecomes.before
  rw [hbefore, List.map_reverse, List.reverse_reverse, map_token_numbered, hbefore', List.map_append,
    List.map_cons, List.reverse_append, List.reverse_cons, List.append_assoc,
    List.singleton_append] at hrevised
  obtain ⟨ps, t, qs, rfl, -, ht, hqs⟩ := hrevised.exists_right
  rw [Nat.zero_add] at ht hqs
  -- The blank line was one of those before the docstring in the source.
  have hmem : ps.length ∈ blanksBefore site := by
    refine mem_blanksBefore_iff.mpr ⟨(numbered (ps.length + 1) qs).reverse, ⟨ps.length, t⟩,
      (numbered 0 ps).reverse, ?_, rfl, ?_, ?_⟩
    · rw [hbefore, numbered_append, numbered]
      simp
    · rw [← isBlankLine_of_becomes ht, hblank]
    · intro m hm
      have hmem : m.token ∈ qs := by
        rw [← map_token_numbered (ps.length + 1) qs]
        exact List.mem_map_of_mem (List.mem_reverse.mp hm)
      have hwhole : tokens = (ps ++ [t]) ++ qs ++ site.token :: site.after := by
        rw [htokens]
        simp
      rcases kind_of_mem_revised (revises_revision o h) hwhole (by simpa using hqs) hmem with
        hnl | ⟨u, hu, hkind⟩
      · simp [hnl]
      · obtain ⟨m', hm', rfl⟩ := List.mem_map.mp (List.mem_reverse.mp hu)
        rw [← hkind]
        exact hlayout m' hm'
  rw [hdropped _ hmem] at ht
  exact ht

end Before

section After

variable {o : Options} {ρ : Nat → Revision} {s : Text} {tokens pre ts us : List Token}
  {site site' : Site}

theorem Revised.length_le {i kept : Nat} (h : Revised ρ i ts us)
    (hdropped : ∀ j < ts.length, kept ≤ j → ρ (i + j) = .drop) : us.length ≤ kept := by
  induction ts generalizing i us kept with
  | nil =>
    cases h
    exact Nat.zero_le kept
  | cons t ts ih =>
    have hnext : ∀ k, kept ≤ k + 1 → ∀ j < ts.length, k ≤ j → ρ (i + 1 + j) = .drop := by
      intro k hk j hj hle
      rw [Nat.add_assoc, Nat.add_comm 1]
      exact hdropped (j + 1) (Nat.succ_lt_succ hj) (by omega)
    rcases revised_cons_iff.mp h with ⟨-, hrest⟩ | ⟨u, vs, rfl, hbecomes, hrest⟩
    · exact ih hrest (hnext kept (Nat.le_succ kept))
    · cases kept with
      | zero =>
        rw [show ρ i = .drop from hdropped 0 (Nat.succ_pos _) (Nat.le_refl 0)] at hbecomes
        exact hbecomes.elim
      | succ k => exact Nat.succ_le_succ (ih hrest (hnext k (Nat.le_refl _)))

private theorem endsBody_of_revised (hρ : Revises ρ tokens) (htokens : tokens = pre ++ ts)
    (h : Revised ρ pre.length ts us) : endsBody us = endsBody ts := by
  induction ts generalizing pre us with
  | nil =>
    cases h
    rfl
  | cons t ts ih =>
    have hnext : ∀ us, Revised ρ (pre.length + 1) ts us → endsBody us = endsBody ts := by
      intro us hrest
      exact @ih (pre ++ [t]) us (by simp [htokens]) (by simpa using hrest)
    rcases revised_cons_iff.mp h with ⟨hdrop, hrest⟩ | ⟨u, vs, rfl, hbecomes, hrest⟩
    · have hnl := kind_of_isBlankLine ((hρ.drop _ hdrop).of_split htokens).1
      rw [hnext _ hrest, endsBody, endsBody, List.find?_cons_of_neg (by simp [hnl])]
    · have hkind := hbecomes.kind
      have hmore := hnext vs hrest
      rw [endsBody, endsBody] at hmore
      rw [endsBody, endsBody, List.find?_cons, List.find?_cons, hkind]
      cases t.kind != .nl && t.kind != .comment with
      | true => exact congrArg (fun k : TokenKind => k == .dedent || k == .endMarker) hkind
      | false => exact hmore

private theorem blanks_of_revised (hρ : Revises ρ tokens) (htokens : tokens = pre ++ ts)
    (h : Revised ρ pre.length ts us) :
    Revised ρ pre.length (ts.takeWhile Token.isBlankLine) (us.takeWhile Token.isBlankLine) ∧
      Revised ρ (pre.length + (ts.takeWhile Token.isBlankLine).length)
        (ts.dropWhile Token.isBlankLine) (us.dropWhile Token.isBlankLine) := by
  have hsplit := @List.takeWhile_append_dropWhile _ Token.isBlankLine ts
  rw [← hsplit] at h
  obtain ⟨us₁, us₂, rfl, hblanks, hrest⟩ := h.exists_left
  have hfirst : ∀ u ∈ us₁, u.isBlankLine = true := by
    intro u hu
    obtain ⟨a, b, rfl⟩ := List.append_of_mem hu
    obtain ⟨ps, t, qs, hts, -, ht, -⟩ := hblanks.exists_right
    rw [isBlankLine_of_becomes ht]
    refine List.all_eq_true.mp (@List.all_takeWhile _ Token.isBlankLine ts) t ?_
    rw [hts]
    simp
  have hsecond : us₂.takeWhile Token.isBlankLine = [] := by
    have hhead := List.head?_dropWhile_not Token.isBlankLine ts
    have hindex : pre.length + (ts.takeWhile Token.isBlankLine).length =
        (pre ++ ts.takeWhile Token.isBlankLine).length := List.length_append.symm
    rw [hindex] at hrest
    have hwhole : tokens = (pre ++ ts.takeWhile Token.isBlankLine) ++
        ts.dropWhile Token.isBlankLine := by rw [htokens, List.append_assoc, hsplit]
    generalize pre ++ ts.takeWhile Token.isBlankLine = pre₀ at hrest hwhole
    generalize ts.dropWhile Token.isBlankLine = rest at hhead hrest hwhole
    cases rest with
    | nil =>
      cases hrest
      rfl
    | cons t rest =>
      rcases revised_cons_iff.mp hrest with ⟨hdrop, -⟩ | ⟨u, vs, rfl, hbecomes, -⟩
      · have hblank := ((hρ.drop _ hdrop).of_split hwhole).1
        simp [hblank] at hhead
      · have hu := isBlankLine_of_becomes hbecomes
        exact List.takeWhile_cons_of_neg (by rw [hu]; simpa using hhead)
  have hdrop : us₂.dropWhile Token.isBlankLine = us₂ := by
    have hwhole := @List.takeWhile_append_dropWhile _ Token.isBlankLine us₂
    rwa [hsecond, List.nil_append] at hwhole
  rw [List.takeWhile_append_of_pos hfirst, List.dropWhile_append_of_pos hfirst, hsecond, hdrop,
    List.append_nil]
  exact ⟨hblanks, hrest⟩

private theorem blanksAfter_eq_nil (h : tokenize s = .ok tokens)
    (hrows : KeepsRows (revision o tokens) tokens) (hsite : site ∈ sites tokens)
    (hbecomes : site.Becomes (revision o tokens) site') (hkind : site.token.kind = .string)
    (hdropped : ∀ i ∈ blanksAfter site, revision o tokens i = .drop) : blanksAfter site' = [] := by
  rw [List.eq_nil_iff_forall_not_mem]
  intro i hi
  have hρ := revises_revision o h
  obtain ⟨pre, htokens, hindex, -⟩ := mem_sites hsite
  obtain ⟨cs, newline', rest', hafter', hcs, hnewline'⟩ := exists_split_of_mem_blanksAfter hi
  -- The end of the logical line and the blank lines after it stood after the docstring before.
  have hafter := hbecomes.after
  rw [hafter', hindex] at hafter
  have hnext := hrows pre site.token site.after htokens (Or.inl hkind)
  obtain ⟨bs, rest₀, hbs, hcomments, hrevised, hnot⟩ :=
    @comments_of_revised tokens (revision o tokens) (pre ++ [site.token]) site.after
      (newline' :: rest') cs hrows (by simp [← htokens]) (by simpa using hnext) hcs
      (by simpa using hafter)
  obtain ⟨newline, rest, rfl, hnewline, hrest⟩ : ∃ newline rest, rest₀ = newline :: rest ∧
      newline.kind = .newline ∧ Revised (revision o tokens) (site.index + bs.length + 2) rest rest' := by
    have hplace : (pre ++ [site.token]).length + bs.length + 1 = site.index + bs.length + 2 := by
      rw [hindex, List.length_append, List.length_singleton]
      omega
    cases rest₀ with
    | nil => cases hrevised
    | cons newline rest =>
      rcases revised_cons_iff.mp hrevised with ⟨hdrop, -⟩ | ⟨u, vs, hall, hbecomes, hrest⟩
      · exact absurd hdrop hnot
      · obtain ⟨rfl, rfl⟩ := List.cons.inj hall
        rw [hplace] at hrest
        exact ⟨newline, rest, rfl, hbecomes.kind.symm.trans hnewline', hrest⟩
  rw [blanksAfter_of_split hbs hcomments hnewline] at hdropped
  rw [blanksAfter_of_split hafter' hcs hnewline'] at hi
  have hwhole : tokens = (pre ++ (site.token :: bs ++ [newline])) ++ rest := by
    rw [htokens, hbs]
    simp
  have hlength : site.index + bs.length + 2 = (pre ++ (site.token :: bs ++ [newline])).length := by
    rw [hindex]
    simp only [List.length_append, List.length_cons, List.length_nil]
    omega
  rw [hlength] at hrest hdropped
  obtain ⟨hblanks, hmore⟩ := blanks_of_revised hρ hwhole hrest
  have hbody : endsBody (rest'.dropWhile Token.isBlankLine) =
      endsBody (rest.dropWhile Token.isBlankLine) := by
    rw [← List.length_append] at hmore
    refine endsBody_of_revised hρ ?_ hmore
    rw [List.append_assoc, List.takeWhile_append_dropWhile]
    exact hwhole
  rw [hbody] at hi
  generalize (if endsBody _ then 1 else 0) = kept at hi hdropped
  have hfew : (rest'.takeWhile Token.isBlankLine).length ≤ kept := by
    refine hblanks.length_le fun j hj hle => ?_
    refine hdropped _ (List.mem_map.mpr ⟨j - kept, List.mem_range.mpr (by omega), ?_⟩)
    omega
  dsimp only at hi
  rw [Nat.sub_eq_zero_of_le hfew] at hi
  cases hi

end After

section Again

variable {o : Options} {s out : Text} {tokens tokens' : List Token}

private theorem droppedBlanks_eq_nil (hrange : o.lineRange = none) (h : tokenize s = .ok tokens)
    (hrows : KeepsRows (revision o tokens) tokens) (h' : tokenize out = .ok tokens')
    (hsites : List.Forall₂ (Site.Becomes (revision o tokens))
      (withoutIndices (droppedBlanks o (blocks tokens) (sites tokens)) 0 (sites tokens))
      (sites tokens')) :
    droppedBlanks o (blocks tokens') (sites tokens') = [] := by
  rw [List.eq_nil_iff_forall_not_mem]
  intro i hi
  obtain ⟨site', hsite', hrewritten', subject, hsubject', hi⟩ := (mem_droppedBlanks_iff h').mp hi
  obtain ⟨site, hmem, hbecomes⟩ := exists_of_mem_right hsites hsite'
  have hsite := mem_of_mem_withoutIndices hmem
  have hsubject := subject?_of_becomes h hsite hbecomes hsubject'
  have hrewritten :=
    isRewritten_of_subject? hrange h hrows hsite hbecomes hrewritten' hsubject'
  have hdropped : ∀ j ∈ blanksAround subject site, revision o tokens j = .drop := by
    intro j hj
    rw [revision_eq_drop_iff h, mem_droppedBlanks_iff h]
    exact ⟨site, hsite, hrewritten, subject, hsubject, hj⟩
  have hkind := kind_of_isRewritten hrewritten
  have hbefore := blanksBefore_eq_nil h hsite hbecomes
  have hafter := blanksAfter_eq_nil h hrows hsite hbecomes hkind
  cases subject with
  | wholeModule => cases hi
  | assignment =>
    rw [blanksAround, hbefore hdropped] at hi
    cases hi
  | classDef =>
    rw [blanksAround, hbefore fun j hj => hdropped j (List.mem_append_left _ hj),
      hafter fun j hj => hdropped j (List.mem_append_right _ hj)] at hi
    cases hi
  | functionDef =>
    rw [blanksAround, hbefore fun j hj => hdropped j (List.mem_append_left _ hj),
      hafter fun j hj => hdropped j (List.mem_append_right _ hj)] at hi
    cases hi

end Again

section Endings

variable {o : Options} {s x f : Text} {tokens : List Token}

private theorem return_not_mem_revisedText {closing pre : List Token} {ps : List Piece} {last : Nat}
    (hcr : '\r' ∉ s) (h : Ahead s tokens closing pre x ps last) :
    '\r' ∉ revisedText (revision o tokens) pre.length ps := by
  induction ps generalizing pre x with
  | nil => simp [revisedText]
  | cons p ps ih =>
    have hrest := ih h.step
    rw [List.length_append, List.length_singleton] at hrest
    have hsource := hcr
    rw [h.source_cons, Piece.text] at hsource
    simp only [List.mem_append, not_or] at hsource
    obtain ⟨⟨hx, hgap, htext⟩, hmore⟩ := hsource
    rw [revisedText, List.mem_append, not_or]
    refine ⟨?_, hrest⟩
    cases hrevision : revision o tokens pre.length with
    | keep =>
      rw [Revision.textOf, Piece.text, List.mem_append, not_or]
      exact ⟨hgap, htext⟩
    | drop => exact List.not_mem_nil
    | replace new =>
      rw [Revision.textOf, List.mem_append, not_or]
      refine ⟨hgap, ?_⟩
      obtain ⟨site, -, pre', htokens, hlength, -, hne, rfl⟩ := exists_of_replace hrevision
      obtain ⟨rfl, htail⟩ := List.append_inj (htokens.symm.trans h.tokens) hlength
      obtain ⟨htoken, -⟩ := List.cons.inj htail
      have hline : '\r' ∉ p.token.line := by
        rw [h.fits.stands.line]
        simp only [List.mem_append, not_or]
        refine ⟨⟨fun hmem => ?_, htext⟩, fun hmem => ?_⟩
        · have hrow := (lastRow_isSuffix _).subset hmem
          simp [hx, hgap] at hrow
        · rw [restOfRow] at hmem
          split at hmem
          · cases hmem
          · exact hmore (firstRow_subset _ hmem)
      refine Docstring.return_not_mem_format ?_ ?_ (newText_ne hne).2
      · rwa [htoken]
      · rw [htoken]
        intro hmem
        exact hline (( List.takeWhile_prefix _).subset (( List.takeWhile_prefix _).subset hmem))

end Endings

section Sources

variable {o : Options} {s x out : Text} {tokens tokens' : List Token}

private theorem result_format_of_error {cause : Error} (h : tokenize (unixLines x) = .error cause) :
    (format o x).result = .ok x := by
  rw [result_format_eq, formatCode, h]
  rfl

private theorem result_format_iff (h : tokenize (unixLines x) = .ok tokens) :
    (format o x).result = .ok out ↔ (tryFormat o x).result = .ok (.ok out) := by
  rw [result_format_eq, result_tryFormat_eq, result_formatCode o h]
  rcases (formatSites o ((blocks tokens).map Block.docstring) (sites tokens)).result with fault | ts
  · simp [Except.map]
  · simp [Except.map]

theorem format_eq_self_iff (h : tokenize (unixLines x) = .ok tokens)
    (hend : lastRow (unixLines x) = []) (hnever : NeverContinued .start 1 (unixLines x).rawLines) :
    (format o x).result = .ok x ↔
      IsSettled o tokens ∧ restoreEndings x (unixLines x) = x := by
  have hcr := return_not_mem_unixLines x
  rw [result_format_iff h, result_tryFormat_eq, ← result_tryFormat o hcr,
    ← tryFormat_eq_self_iff hcr hend h hnever]
  constructor
  · intro hself
    cases hresult : (tryFormat o (unixLines x)).result with
    | error fault =>
      rw [hresult] at hself
      cases hself
    | ok read =>
      cases read with
      | error cause =>
        rw [hresult] at hself
        cases hself
      | ok g =>
        rw [hresult] at hself
        have hrestored : restoreEndings x g = x := Except.ok.inj (Except.ok.inj hself)
        have hg := return_not_mem_formatCode hcr ((result_tryFormat o hcr).symm.trans hresult)
        have hsame : g = unixLines x := by
          conv_rhs => rw [← hrestored]
          exact (unixLines_restoreEndings x hg).symm
        rw [← hsame]
        exact ⟨rfl, hrestored⟩
  · rintro ⟨hself, hrestored⟩
    rw [hself]
    exact congrArg (fun y => Except.ok (Except.ok y)) hrestored

/-- What formatting a formatted source finds at a site, `site`, of the source it was made of. -/
structure Site.IsFoundAgain (o : Options) (tokens tokens' : List Token) (site site' : Site) : Prop where
  kind : site'.token.kind = site.token.kind
  text : site'.token.text = site.newText o ((blocks tokens).map Block.docstring)
  again : site'.IsRewritten o ((blocks tokens').map Block.docstring) →
    site'.token.lineIndent = site.token.lineIndent ∧
      (site.IsRewritten o ((blocks tokens).map Block.docstring) ∨
        site.IsExposed o (droppedBlanks o (blocks tokens) (sites tokens)))

private theorem forall₂_isFoundAgain (hrange : o.lineRange = none) (h : tokenize s = .ok tokens)
    (hrows : KeepsRows (revision o tokens) tokens) (h' : tokenize out = .ok tokens')
    (hsites : List.Forall₂ (Site.Becomes (revision o tokens))
      (withoutIndices (droppedBlanks o (blocks tokens) (sites tokens)) 0 (sites tokens))
      (sites tokens')) :
    List.Forall₂ (Site.IsFoundAgain o tokens tokens')
      (withoutIndices (droppedBlanks o (blocks tokens) (sites tokens)) 0 (sites tokens))
      (sites tokens') := by
  rw [List.forall₂_iff_zip] at hsites ⊢
  refine ⟨hsites.1, fun {site site'} hzip => ?_⟩
  have hbecomes := hsites.2 hzip
  have hsite := mem_of_mem_withoutIndices (List.of_mem_zip hzip).1
  have hsite' := (List.of_mem_zip hzip).2
  refine ⟨hbecomes.token.kind, text_of_becomes hsite hbecomes, fun hagain => ?_⟩
  have hkind : site.token.kind = .string :=
    hbecomes.token.kind.symm.trans (kind_of_isRewritten hagain)
  exact ⟨lineIndent_of_becomes h hsite hbecomes hkind,
    isRewritten_or_isExposed hrange h hrows h' hsite hsite' hbecomes hagain⟩

private theorem isSettled_of_forall₂
    (hdropped : droppedBlanks o (blocks tokens') (sites tokens') = [])
    (hsites : List.Forall₂ (Site.IsFoundAgain o tokens tokens')
      (withoutIndices (droppedBlanks o (blocks tokens) (sites tokens)) 0 (sites tokens))
      (sites tokens'))
    (hfixed : ∀ site ∈ sites tokens,
      site.IsRewritten o ((blocks tokens).map Block.docstring) ∨
        site.IsExposed o (droppedBlanks o (blocks tokens) (sites tokens)) →
      (Docstring.format o site.token.lineIndent
          (site.newText o ((blocks tokens).map Block.docstring))).result =
        .ok (site.newText o ((blocks tokens).map Block.docstring))) :
    IsSettled o tokens' := by
  refine ⟨hdropped, fun site' hsite' hagain => ?_⟩
  obtain ⟨site, hmem, hfound⟩ := exists_of_mem_right hsites hsite'
  obtain ⟨hindent, hreason⟩ := hfound.again hagain
  rw [hindent, hfound.text]
  exact hfixed site (mem_of_mem_withoutIndices hmem) hreason

/-- A source that cannot be read stays as it is.  If the new text of every docstring that is replaced
is a complete literal, formatting a source without unfinished and continued lines gives a source that
can be formatted again; this changes nothing exactly if no blank line is dropped and every docstring
is formatted to itself.  Unless the options name rows, no blank line is dropped the second time, and
each string that is rewritten then has the text and the indentation of one that was rewritten the
first time or was exposed.  So the second time changes nothing if formatting changes no formatted
docstring and no exposed string. -/
theorem reformatted_iff_settled (o : Options) (x : Text) :
    (∀ cause, tokenize (unixLines x) = .error cause → (format o x).result = .ok x) ∧
    ∀ tokens, tokenize (unixLines x) = .ok tokens →
      unixLines x = [] ∨ (unixLines x).endsWithNewline = true →
      NeverContinued .start 1 (unixLines x).rawLines →
      (∀ site ∈ sites tokens, site.IsRewritten o ((blocks tokens).map Block.docstring) →
        ∃ text, (Docstring.format o site.token.lineIndent site.token.text).result = .ok text ∧
          (text ≠ site.token.text → IsString text)) →
      ∃ out tokens', (format o x).result = .ok out ∧ tokenize (unixLines out) = .ok tokens' ∧
        ((format o out).result = .ok out ↔ IsSettled o tokens') ∧
        (o.lineRange = none →
          droppedBlanks o (blocks tokens') (sites tokens') = [] ∧
          List.Forall₂ (Site.IsFoundAgain o tokens tokens')
            (withoutIndices (droppedBlanks o (blocks tokens) (sites tokens)) 0 (sites tokens))
            (sites tokens') ∧
          ((∀ site ∈ sites tokens,
              site.IsRewritten o ((blocks tokens).map Block.docstring) ∨
                site.IsExposed o (droppedBlanks o (blocks tokens) (sites tokens)) →
              (Docstring.format o site.token.lineIndent
                  (site.newText o ((blocks tokens).map Block.docstring))).result =
                .ok (site.newText o ((blocks tokens).map Block.docstring))) →
            (format o out).result = .ok out)) := by
  refine ⟨fun cause h => result_format_of_error h, fun tokens h hend hnever hnew => ?_⟩
  have hcr := return_not_mem_unixLines x
  have hrow := lastRow_of_complete hend
  obtain ⟨ps, closing, depth, tokens', hahead, hformat, hread, hrevised, hnever', hend'⟩ :=
    exists_formatted hcr hrow h hnever hnew
  have hcr' : '\r' ∉ revisedText (revision o tokens) 0 ps := return_not_mem_revisedText hcr hahead
  generalize hf : revisedText (revision o tokens) 0 ps = f at *
  have hout : (format o x).result = .ok (restoreEndings x f) := by
    rw [result_format_iff h, result_tryFormat_eq, ← result_tryFormat o hcr, hformat]
    rfl
  have hunix := unixLines_restoreEndings x hcr'
  have hself : (format o (restoreEndings x f)).result = .ok (restoreEndings x f) ↔
      IsSettled o tokens' := by
    rw [format_eq_self_iff (by rwa [hunix]) (by rwa [hunix]) (by rwa [hunix]), hunix,
      restoreEndings_restoreEndings x hcr', and_iff_left rfl]
  refine ⟨restoreEndings x f, tokens', hout, by rwa [hunix], hself, fun hrange => ?_⟩
  obtain ⟨qs, closing', last, hahead', hkinds, -⟩ := exists_ahead hcr hrow h hnever
  have hrows : KeepsRows (revision o tokens) tokens :=
    keepsRows_revision hcr hrow h hahead' hkinds
  have hsites := forall₂_sitesFrom (revision_eq_drop_iff h) .nil hrevised
  have hdropped := droppedBlanks_eq_nil hrange h hrows hread hsites
  have hfound := forall₂_isFoundAgain hrange h hrows hread hsites
  exact ⟨hdropped, hfound, fun hfixed => hself.mpr (isSettled_of_forall₂ hdropped hfound hfixed)⟩

/-- The second string of a function is exposed, and formatting the formatted source rewrites it. -/
theorem exposed_string_is_rewritten_again :
    let x : Text := "def f():\n    \"\"\"Do it.\"\"\"\n\n    \"\"\"then that\"\"\"\n".toList
    let out : Text := "def f():\n    \"\"\"Do it.\"\"\"\n    \"\"\"then that\"\"\"\n".toList
    (unixLines x).endsWithNewline = true ∧ NeverContinued .start 1 (unixLines x).rawLines ∧
      ∃ tokens tokens', tokenize (unixLines x) = .ok tokens ∧
        (∀ site ∈ sites tokens, site.IsRewritten {} ((blocks tokens).map Block.docstring) →
          (Docstring.format {} site.token.lineIndent site.token.text).result =
            .ok site.token.text) ∧
        (∃ site ∈ sites tokens, site.IsExposed {} (droppedBlanks {} (blocks tokens) (sites tokens))) ∧
        (format {} x).result = .ok out ∧ tokenize (unixLines out) = .ok tokens' ∧
        ¬ IsSettled {} tokens' ∧ (format {} out).result ≠ .ok out := by
  intro x out
  have hend : (unixLines x).endsWithNewline = true := by decide +kernel
  have hnever : NeverContinued .start 1 (unixLines x).rawLines := by decide +kernel
  have hout : (format {} x).result = .ok out := by decide +kernel
  have hfacts : (tokenize (unixLines x)).toOption.any (fun tokens =>
      (sites tokens).all (fun site =>
        !decide (site.IsRewritten {} ((blocks tokens).map Block.docstring)) ||
          (Docstring.format {} site.token.lineIndent site.token.text).result.toOption ==
            some site.token.text) &&
      (sites tokens).any (fun site =>
        decide (site.IsExposed {} (droppedBlanks {} (blocks tokens) (sites tokens))))) = true := by
    decide +kernel
  have hagain : (tokenize (unixLines out)).toOption.any (fun tokens =>
      (sites tokens).any (fun site =>
        decide (site.IsRewritten {} ((blocks tokens).map Block.docstring)) &&
          (Docstring.format {} site.token.lineIndent site.token.text).result.toOption !=
            some site.token.text)) = true := by
    decide +kernel
  cases htokens : tokenize (unixLines x) with
  | error cause =>
    rw [htokens] at hfacts
    cases hfacts
  | ok tokens =>
    simp only [htokens, Except.toOption, Option.any_some, Bool.and_eq_true, List.all_eq_true,
      List.any_eq_true, Bool.or_eq_true, Bool.not_eq_true', decide_eq_false_iff_not,
      decide_eq_true_eq, beq_iff_eq] at hfacts
    obtain ⟨hsame, hexposed⟩ := hfacts
    have hsettled : ∀ site ∈ sites tokens,
        site.IsRewritten {} ((blocks tokens).map Block.docstring) →
          (Docstring.format {} site.token.lineIndent site.token.text).result =
            .ok site.token.text := by
      intro site hsite hrewritten
      have htext := (hsame site hsite).resolve_left (fun h => h hrewritten)
      split at htext
      · rename_i text hresult
        cases htext
        exact hresult
      · cases htext
    obtain ⟨out', tokens', hout', hread, hiff, -⟩ := (reformatted_iff_settled {} x).2 tokens htokens
      (Or.inr hend) hnever fun site hsite hrewritten =>
        ⟨_, hsettled site hsite hrewritten, fun hne => absurd rfl hne⟩
    rw [hout] at hout'
    cases hout'
    have hunsettled : ¬ IsSettled {} tokens' := by
      intro hstays
      simp only [hread, Except.toOption, Option.any_some, List.any_eq_true, Bool.and_eq_true,
        decide_eq_true_eq, bne_iff_ne] at hagain
      obtain ⟨site, hsite, hrewritten, hchanged⟩ := hagain
      rw [hstays.2 site hsite hrewritten] at hchanged
      exact hchanged rfl
    exact ⟨hend, hnever, tokens, tokens', rfl, hsettled, hexposed, hout, hread, hunsettled,
      fun hself => hunsettled (hiff.mp hself)⟩

end Sources

end DocstringFormat.Source
