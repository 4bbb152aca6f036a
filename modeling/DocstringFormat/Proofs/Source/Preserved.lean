import DocstringFormat.Proofs.Docstring.Closing
import DocstringFormat.Proofs.Source.Rescan
import DocstringFormat.Proofs.Source.Touched

/-!
What formatting keeps.

Formatting is a revision (`revision`): it drops blank lines and replaces docstrings.  As long as the
new texts are complete literals, the formatted source therefore reads as the tokens of the source,
line breaks of blank lines and the texts of docstrings aside (`formatted_keeps_tokens`).
-/

set_option autoImplicit false

namespace DocstringFormat.Source

open Docstring (Opening)

section Literals

variable {o : Options} {indent literal text : Text}

theorem exists_head_of_opening {p : Text}
    (hp : p ∈ Opening.all.map Opening.text ++ Docstring.canonicalOpenings) :
    ∃ c rest, p = c :: rest ∧ Character.isBlank c = false := by
  have hall : (Opening.all.map Opening.text ++ Docstring.canonicalOpenings).all
      (fun p => p.head?.any fun c => !Character.isBlank c) = true := by decide
  have hhead := List.all_eq_true.mp hall p hp
  cases p with
  | nil => cases hhead
  | cons c rest => exact ⟨c, rest, rfl, by simpa using hhead⟩

theorem exists_canonical_of_changed (hindent : Text.isBlank indent = true)
    (h : (Docstring.format o indent literal).result = .ok text) (hne : text ≠ literal) :
    ∃ opening ∈ Docstring.canonicalOpenings, ∃ body,
      text = opening ++ (body ++ Docstring.tripleDouble) := by
  rcases Docstring.format_cases h with heq | ⟨opening, contents, hstrip, hcases⟩
  · exact absurd heq hne
  · obtain ⟨q, hq, -, -, rfl, -⟩ := Docstring.strip_eq_ok hstrip
    refine ⟨q.canonical, Docstring.canonical_mem hq, ?_⟩
    rcases hcases with ⟨-, rfl⟩ | ⟨-, hleave, n, -, rfl⟩
    · exact ⟨[], rfl⟩
    · obtain ⟨body, hbody, -⟩ := Docstring.exists_rewritten_eq hindent (Docstring.canonical_mem hq)
        (Docstring.quoteFree_of_leaveReason hleave)
      exact ⟨body, by rw [hbody, List.append_assoc]⟩

private theorem isTripleQuoted_of_changed (hindent : Text.isBlank indent = true)
    (h : (Docstring.format o indent literal).result = .ok text) (hne : text ≠ literal)
    (hstring : IsString text) : IsTripleQuoted text := by
  obtain ⟨opening, hopening, body, rfl⟩ := exists_canonical_of_changed hindent h hne
  have hall : ∀ p ∈ Docstring.canonicalOpenings,
      ∃ q ∈ Opening.all, q.text = p ∧ q.quote = Docstring.tripleDouble := by decide
  obtain ⟨q, hq, rfl, hquote⟩ := hall opening hopening
  exact ⟨q, hq, _, hquote, rfl, (isString_iff hq _).mp hstring⟩

end Literals

section Sites

variable {o : Options} {s : Text} {tokens pre post : List Token} {t : Token} {site : Site}

/-- The text that the token at a site has after formatting. -/
def Site.newText (o : Options) (reported : List Nat) (site : Site) : Text :=
  if site.IsRewritten o reported then
    (Docstring.format o site.token.lineIndent site.token.text).result.toOption.getD site.token.text
  else site.token.text

theorem newText_ne {reported : List Nat} (h : site.newText o reported ≠ site.token.text) :
    site.IsRewritten o reported ∧
      (Docstring.format o site.token.lineIndent site.token.text).result =
        .ok (site.newText o reported) := by
  unfold Site.newText at h ⊢
  split at h
  · rename_i hrewritten
    refine ⟨hrewritten, ?_⟩
    rw [if_pos hrewritten]
    cases hformat : (Docstring.format o site.token.lineIndent site.token.text).result with
    | error fault =>
      rw [hformat] at h
      exact absurd rfl h
    | ok text => rfl
  · exact absurd rfl h

private theorem getElem?_sitesFrom (pre : List Token) (t : Token) (post : List Token) (i : Nat)
    (before : List Numbered) :
    (sitesFrom i before (pre ++ t :: post))[pre.length]? =
      some ⟨i + pre.length, (numbered i pre).reverse ++ before, t, post⟩ := by
  induction pre generalizing i before with
  | nil => rfl
  | cons u pre ih =>
    have hrest := ih (i + 1) (⟨i, u⟩ :: before)
    rw [List.cons_append, sitesFrom, List.length_cons, List.getElem?_cons_succ, hrest, numbered,
      List.reverse_cons, List.append_assoc, Nat.add_assoc, Nat.add_comm 1]
    rfl

private theorem getElem?_sites (htokens : tokens = pre ++ t :: post) :
    (sites tokens)[pre.length]? = some ⟨pre.length, (numbered 0 pre).reverse, t, post⟩ := by
  have h := getElem?_sitesFrom pre t post 0 []
  rw [Nat.zero_add, List.append_nil] at h
  rw [htokens]
  exact h

def revision (o : Options) (tokens : List Token) (index : Nat) : Revision :=
  match (sites tokens)[index]? with
  | none => .keep
  | some site =>
    let text := site.newText o ((blocks tokens).map Block.docstring)
    if text ≠ site.token.text then .replace text
    else if index ∈ droppedBlanks o (blocks tokens) (sites tokens) then .drop
    else .keep

private theorem length_sitesFrom (i : Nat) (before : List Numbered) (ts : List Token) :
    (sitesFrom i before ts).length = ts.length := by
  induction ts generalizing i before with
  | nil => rfl
  | cons t ts ih => rw [sitesFrom, List.length_cons, List.length_cons, ih]

private theorem exists_split_of_getElem? {index : Nat} (h : (sites tokens)[index]? = some site) :
    ∃ pre, tokens = pre ++ site.token :: site.after ∧ pre.length = index ∧ site.index = index := by
  obtain ⟨hlt, -⟩ := List.getElem?_eq_some_iff.mp h
  rw [sites, length_sitesFrom] at hlt
  have hsplit : tokens = tokens.take index ++ tokens[index] :: tokens.drop (index + 1) := by
    rw [← List.drop_eq_getElem_cons hlt, List.take_append_drop]
  have hlength : (tokens.take index).length = index := by
    rw [List.length_take, Nat.min_eq_left (Nat.le_of_lt hlt)]
  have hget := getElem?_sites hsplit
  rw [hlength, h] at hget
  cases hget
  exact ⟨tokens.take index, hsplit, hlength, rfl⟩

theorem revision_cases (o : Options) (tokens : List Token) (index : Nat) :
    revision o tokens index = .keep ∨
      ∃ site ∈ sites tokens, ∃ pre, tokens = pre ++ site.token :: site.after ∧ pre.length = index ∧
        site.index = index ∧
        (revision o tokens index = .drop ∧ index ∈ droppedBlanks o (blocks tokens) (sites tokens) ∨
          site.newText o ((blocks tokens).map Block.docstring) ≠ site.token.text ∧
            revision o tokens index =
              .replace (site.newText o ((blocks tokens).map Block.docstring))) := by
  unfold revision
  cases hget : (sites tokens)[index]? with
  | none => exact Or.inl rfl
  | some site =>
    obtain ⟨pre, hsplit, hlength, hindex⟩ := exists_split_of_getElem? hget
    dsimp only
    split
    · rename_i hne
      exact Or.inr ⟨site, List.mem_of_getElem? hget, pre, hsplit, hlength, hindex,
        Or.inr ⟨hne, rfl⟩⟩
    · split
      · rename_i hdropped
        exact Or.inr ⟨site, List.mem_of_getElem? hget, pre, hsplit, hlength, hindex,
          Or.inl ⟨rfl, hdropped⟩⟩
      · exact Or.inl rfl

theorem exists_of_replace {index : Nat} {text : Text}
    (h : revision o tokens index = .replace text) :
    ∃ site ∈ sites tokens, ∃ pre, tokens = pre ++ site.token :: site.after ∧ pre.length = index ∧
      site.index = index ∧
      site.newText o ((blocks tokens).map Block.docstring) ≠ site.token.text ∧
      text = site.newText o ((blocks tokens).map Block.docstring) := by
  rcases revision_cases o tokens index with hkeep | ⟨site, hsite, pre, hsplit, hlength, hindex,
    ⟨hdrop, -⟩ | ⟨hne, hreplace⟩⟩
  · rw [h] at hkeep
    cases hkeep
  · rw [h] at hdrop
    cases hdrop
  · rw [h] at hreplace
    cases hreplace
    exact ⟨site, hsite, pre, hsplit, hlength, hindex, hne, rfl⟩

private theorem opensRow_of_isRewritten (h : tokenize s = .ok tokens) (hsite : site ∈ sites tokens)
    (hsplit : tokens = pre ++ site.token :: site.after) (hlength : pre.length = site.index)
    (hrewritten : site.IsRewritten o ((blocks tokens).map Block.docstring)) : OpensRow pre := by
  obtain ⟨pre', hsplit', hindex, hbefore⟩ := mem_sites hsite
  obtain ⟨rfl, -⟩ := List.append_inj (hsplit'.symm.trans hsplit) (hindex.symm.trans hlength.symm)
  have hencoding := kind_before_ne_encoding h hsite
  have hhead : ∀ t ∈ pre'.getLast?, ∃ n, site.before.head? = some n ∧ n.token = t := by
    intro t ht
    rw [← map_token_numbered 0 pre', List.getLast?_map] at ht
    obtain ⟨n, hn, rfl⟩ := Option.map_eq_some_iff.mp ht
    exact ⟨n, by rw [hbefore, List.head?_reverse, hn], rfl⟩
  intro t ht
  obtain ⟨n, hn, rfl⟩ := hhead t ht
  rcases hrewritten.2.2 with hreported | ⟨m, hm, hkind⟩ | hlayout
  · have hsubject := ((mem_reported_iff h hsite).mp hreported).2
    have hne := hencoding n (List.mem_of_head? hn)
    obtain ⟨rest, hrest⟩ := List.head?_eq_some_iff.mp hn
    rw [Site.subject?, hrest, List.map_cons, subjectAfter?] at hsubject
    cases hkind : n.token.kind <;> simp [hkind, TokenKind.isTrivia] at hsubject hne ⊢
  · rw [hn] at hm
    cases hm
    rcases hkind with hkind | hkind <;> simp [hkind]
  · rcases hlayout n (List.mem_of_head? hn) with hkind | hkind | hkind <;> simp [hkind]

theorem revises_revision (o : Options) (h : tokenize s = .ok tokens) :
    Revises (revision o tokens) tokens := by
  constructor
  · intro i hdrop
    rcases revision_cases o tokens i with hkeep | ⟨site, -, pre, -, -, -, ⟨-, hi⟩ | ⟨-, hreplace⟩⟩
    · rw [hdrop] at hkeep
      cases hkeep
    · exact blank_of_dropped h hi
    · rw [hdrop] at hreplace
      cases hreplace
  · intro i text htext
    obtain ⟨site, hsite, pre, hsplit, hlength, hindex, hne, rfl⟩ := exists_of_replace htext
    have hrewritten := (newText_ne hne).1
    have hcandidate := hrewritten.1
    have hdepth := depth_of_candidate h hsplit hcandidate
    simp only [Site.isCandidate, Bool.and_eq_true, beq_iff_eq] at hcandidate
    obtain ⟨⟨⟨hkind, hliteral⟩, -⟩, hends⟩ := hcandidate
    exact ⟨pre, _, _, hsplit, hlength, hkind, hliteral, hdepth,
      opensRow_of_isRewritten h hsite hsplit (hlength.trans hindex.symm) hrewritten, hends⟩

private theorem revisesSoundly_revision (h : tokenize s = .ok tokens)
    (hnew : ∀ site ∈ sites tokens,
      site.newText o ((blocks tokens).map Block.docstring) ≠ site.token.text →
        IsString (site.newText o ((blocks tokens).map Block.docstring))) :
    RevisesSoundly (revision o tokens) tokens := by
  refine ⟨revises_revision o h, ?_⟩
  intro i text htext
  obtain ⟨site, hsite, pre, -, -, -, hne, rfl⟩ := exists_of_replace htext
  exact isTripleQuoted_of_changed (Text.isBlank_leadingBlanks _) (newText_ne hne).2 hne
    (hnew site hsite hne)

end Sites

section Output

variable {o : Options} {ρ : Nat → Revision} {s x : Text} {tokens closing pre ts : List Token}
  {ps : List Piece} {last : Nat} {c : Cursor}

/-- Tokens after a revision, in their old places; the first has a number. -/
def revisedTokens (ρ : Nat → Revision) : Nat → List Token → List Token
  | _, [] => []
  | i, t :: ts =>
    match ρ i with
    | .keep => t :: revisedTokens ρ (i + 1) ts
    | .drop => revisedTokens ρ (i + 1) ts
    | .replace text => t.withText text :: revisedTokens ρ (i + 1) ts

private theorem revisedTokens_of_keeps {i : Nat} (h : Keeps ρ i ts.length) :
    revisedTokens ρ i ts = ts := by
  induction ts generalizing i with
  | nil => rfl
  | cons t ts ih =>
    obtain ⟨hi, hrest⟩ := Keeps.tail h
    rw [revisedTokens, hi, ih hrest]

theorem Revises.keeps_closing (hρ : Revises ρ tokens) (htokens : tokens = pre ++ closing)
    (hkinds : ∀ t ∈ closing, t.kind ≠ .string ∧ t.kind ≠ .nl ∧ t.kind ≠ .encoding) :
    Keeps ρ pre.length closing.length := by
  have hsplit : tokens = pre ++ closing ++ [] := by rw [htokens, List.append_nil]
  refine hρ.keeps hsplit ?_ ?_
  · rintro a t b rfl hkind
    exact absurd hkind (hkinds t (by simp)).2.1
  · rintro a t b rfl hkind
    exact absurd hkind (hkinds t (by simp)).1

private theorem renderFrom_revisedTokens (hρ : Revises ρ tokens) (hcr : '\r' ∉ s)
    (hend : lastRow s = [])
    (hkinds : ∀ t ∈ closing, t.kind ≠ .string ∧ t.kind ≠ .nl ∧ t.kind ≠ .encoding)
    (hclosing : ∀ c : Cursor, c.credit = [] → renderFrom c closing = [])
    (h : Ahead s tokens closing pre x ps last) (hat : c.At x (spell ps)) :
    renderFrom c (revisedTokens ρ pre.length (ps.map Piece.token ++ closing)) =
      revisedText ρ pre.length ps := by
  -- The cursor stays where the text of the source up to the next piece ends.
  induction ps generalizing pre x c with
  | nil =>
    have htokens : tokens = pre ++ closing := h.tokens
    have hkeeps := hρ.keeps_closing htokens hkinds
    rw [List.map_nil, List.nil_append, revisedTokens_of_keeps hkeeps]
    exact hclosing c hat.credit_eq_nil
  | cons p ps ih =>
    have hfits := h.fits
    have hsource := h.source_cons
    have hkind := hfits.lawful.kind_ne_encoding
    have hstep : c.At x (p.gap ++ p.token.text ++ spell ps) := by
      rw [spell_cons] at hat
      exact hat
    have hgap : c.gap p.token = p.gap := by
      have hrecovers : c.Recovers p.gap := Cursor.recovers_of_not_mem (h.gaps p (by simp))
      rw [hstep.gap_eq hfits.stands]
      exact hrecovers
    have hadvance : (c.advance p.token).At (x ++ p.text) (spell ps) := by
      have hadvance := hstep.advance hfits (by
        have hcr' := hcr
        rw [hsource, Piece.text] at hcr'
        simpa using hcr')
      rw [List.append_assoc x] at hadvance
      exact hadvance
    have hnext := fun c' hat' => @ih (x ++ p.text) (pre ++ [p.token]) c' h.step hat'
    rw [List.length_append, List.length_singleton] at hnext
    rw [List.map_cons, List.cons_append, revisedTokens, revisedText]
    cases hrevision : ρ pre.length with
    | keep =>
      dsimp only
      rw [renderFrom_cons hkind, hgap, hnext _ hadvance, Revision.textOf, Piece.text]
    | replace text =>
      dsimp only
      rw [renderFrom_withText hkind, hgap, hnext _ hadvance, Revision.textOf]
    | drop =>
      have hdrop : ∀ i ∈ [pre.length], IsBlankAt tokens i := by
        intro i hi
        rw [List.mem_singleton.mp hi]
        exact hρ.drop _ hrevision
      obtain ⟨hmem, hx, htext⟩ := h.blank hcr hend hdrop (by simp)
      dsimp only
      rw [hnext c (hstep.skip hfits.gap hmem hx htext), Revision.textOf, List.nil_append]

theorem revision_of_split {post : List Token} {t : Token} (htokens : tokens = pre ++ t :: post) :
    revision o tokens pre.length =
      let site : Site := ⟨pre.length, (numbered 0 pre).reverse, t, post⟩
      let text := site.newText o ((blocks tokens).map Block.docstring)
      if text ≠ t.text then .replace text
      else if pre.length ∈ droppedBlanks o (blocks tokens) (sites tokens) then .drop
      else .keep := by
  rw [revision, getElem?_sites htokens]

theorem newText_of_revision {post : List Token} {t : Token} (htokens : tokens = pre ++ t :: post) :
    Site.newText o ((blocks tokens).map Block.docstring)
        ⟨pre.length, (numbered 0 pre).reverse, t, post⟩ =
      match revision o tokens pre.length with
      | .replace text => text
      | _ => t.text := by
  rw [revision_of_split htokens]
  dsimp only
  generalize Site.newText o ((blocks tokens).map Block.docstring)
    ⟨pre.length, (numbered 0 pre).reverse, t, post⟩ = text
  by_cases htext : text = t.text
  · by_cases hmem : pre.length ∈ droppedBlanks o (blocks tokens) (sites tokens)
    · simp [htext, hmem]
    · simp [htext, hmem]
  · simp [htext]

theorem numbered_append (index : Nat) (ts us : List Token) :
    numbered index (ts ++ us) = numbered index ts ++ numbered (index + ts.length) us := by
  induction ts generalizing index with
  | nil => rfl
  | cons t ts ih =>
    rw [List.cons_append, numbered, ih, numbered, List.length_cons, List.cons_append, Nat.add_assoc,
      Nat.add_comm 1]

theorem numbered_concat (index : Nat) (ts : List Token) (t : Token) :
    numbered index (ts ++ [t]) = numbered index ts ++ [⟨index + ts.length, t⟩] :=
  numbered_append index ts [t]

private theorem result_format_newText {reported : List Nat} {site : Site}
    (hbefore : ∀ n ∈ site.before, n.token.kind ≠ .encoding)
    (hformat : site.IsRewritten o reported →
      ∃ text, (Docstring.format o site.token.lineIndent site.token.text).result = .ok text) :
    (site.format o reported).result = .ok (site.token.withText (site.newText o reported)) := by
  rw [result_format hbefore, Site.newText]
  by_cases hrewritten : site.IsRewritten o reported
  · obtain ⟨text, htext⟩ := hformat hrewritten
    rw [if_pos hrewritten, if_pos hrewritten, htext]
    rfl
  · rw [if_neg hrewritten, if_neg hrewritten]
    rfl

private theorem result_formatSites_eq (h : tokenize s = .ok tokens)
    (hformat : ∀ site ∈ sites tokens, site.IsRewritten o ((blocks tokens).map Block.docstring) →
      ∃ text, (Docstring.format o site.token.lineIndent site.token.text).result = .ok text)
    (htokens : tokens = pre ++ ts) :
    (formatSites o ((blocks tokens).map Block.docstring)
        (sitesFrom pre.length (numbered 0 pre).reverse ts)).result.map
        (withoutIndices (droppedBlanks o (blocks tokens) (sites tokens)) pre.length) =
      .ok (revisedTokens (revision o tokens) pre.length ts) := by
  induction ts generalizing pre with
  | nil => rfl
  | cons t ts ih =>
    have hnext := ih (htokens.trans (by simp) : tokens = pre ++ [t] ++ ts)
    rw [List.length_append, List.length_singleton, numbered_concat, List.reverse_append,
      List.reverse_singleton, List.singleton_append, Nat.zero_add] at hnext
    have hsite := List.mem_of_getElem? (getElem?_sites htokens)
    have hdropped : pre.length ∈ droppedBlanks o (blocks tokens) (sites tokens) → t.kind = .nl :=
      fun hmem => kind_of_isBlankLine ((blank_of_dropped h hmem).of_split htokens).1
    have hfirst := result_format_newText (kind_before_ne_encoding h hsite) (hformat _ hsite)
    have hne := @newText_ne o ⟨pre.length, (numbered 0 pre).reverse, t, ts⟩
      ((blocks tokens).map Block.docstring)
    rw [sitesFrom, result_formatSites_cons, hfirst, revisedTokens, revision_of_split htokens]
    dsimp only
    generalize Site.newText o ((blocks tokens).map Block.docstring)
      ⟨pre.length, (numbered 0 pre).reverse, t, ts⟩ = text at hne ⊢
    cases hrest : (formatSites o ((blocks tokens).map Block.docstring)
        (sitesFrom (pre.length + 1) (⟨pre.length, t⟩ :: (numbered 0 pre).reverse) ts)).result with
    | error fault =>
      rw [hrest] at hnext
      cases hnext
    | ok formatted =>
      rw [hrest] at hnext
      have hmore := Except.ok.inj hnext
      simp only [Except.bind, Except.map, withoutIndices, List.contains_iff_mem, hmore]
      by_cases htext : text = t.text
      · subst htext
        by_cases hmem : pre.length ∈ droppedBlanks o (blocks tokens) (sites tokens)
        · simp [hmem]
        · simp [hmem, Token.withText]
      · have hkind := kind_of_isRewritten (hne htext).1
        have hmem : pre.length ∉ droppedBlanks o (blocks tokens) (sites tokens) := by
          intro hmem
          cases (hdropped hmem).symm.trans hkind
        simp [hmem, htext]

end Output

section Sources

variable {o : Options} {s : Text} {tokens pre ts us : List Token}

theorem result_tryFormat_revised {closing : List Token} {ps : List Piece} {last : Nat}
    (hcr : '\r' ∉ s) (hend : lastRow s = []) (h : tokenize s = .ok tokens)
    (hahead : Ahead s tokens closing [] [] ps last)
    (hkinds : ∀ t ∈ closing, t.kind ≠ .string ∧ t.kind ≠ .nl ∧ t.kind ≠ .encoding)
    (hclosing : ∀ c : Cursor, c.credit = [] → renderFrom c closing = [])
    (hformat : ∀ site ∈ sites tokens, site.IsRewritten o ((blocks tokens).map Block.docstring) →
      ∃ text, (Docstring.format o site.token.lineIndent site.token.text).result = .ok text) :
    (tryFormat o s).result = .ok (.ok (revisedText (revision o tokens) 0 ps)) := by
  have htokens : ps.map Piece.token ++ closing = tokens := hahead.tokens.symm
  have hformatted := result_formatSites_eq h hformat (List.nil_append tokens).symm
  have hrender : renderFrom .start (revisedTokens (revision o tokens) 0 tokens) =
      revisedText (revision o tokens) 0 ps := by
    have hrender := renderFrom_revisedTokens (revises_revision o h) hcr hend hkinds hclosing hahead
      (Cursor.at_start (spell ps))
    rwa [htokens] at hrender
  rw [result_tryFormat o hcr, result_formatCode o h]
  change (formatSites o ((blocks tokens).map Block.docstring) (sites tokens)).result.map _ = _
    at hformatted
  cases hresult : (formatSites o ((blocks tokens).map Block.docstring) (sites tokens)).result with
  | error fault =>
    rw [hresult] at hformatted
    cases hformatted
  | ok formatted =>
    rw [hresult] at hformatted
    rw [← hrender]
    exact congrArg (fun ts => Except.ok (Except.ok (render ts))) (Except.ok.inj hformatted)

theorem lastRow_of_complete (h : s = [] ∨ s.endsWithNewline = true) : lastRow s = [] := by
  rcases h with rfl | h
  · rfl
  · obtain ⟨u, rfl⟩ := List.isSuffixOf_iff_suffix.mp h
    exact lastRow_append_newline u []

theorem exists_formatted (hcr : '\r' ∉ s) (hend : lastRow s = []) (h : tokenize s = .ok tokens)
    (hnever : NeverContinued .start 1 s.rawLines)
    (hnew : ∀ site ∈ sites tokens, site.IsRewritten o ((blocks tokens).map Block.docstring) →
      ∃ text, (Docstring.format o site.token.lineIndent site.token.text).result = .ok text ∧
        (text ≠ site.token.text → IsString text)) :
    ∃ ps closing depth tokens', Ahead s tokens closing [] [] ps depth ∧
      (tryFormat o s).result = .ok (.ok (revisedText (revision o tokens) 0 ps)) ∧
      tokenize (revisedText (revision o tokens) 0 ps) = .ok tokens' ∧
      Revised (revision o tokens) 0 tokens tokens' ∧
      NeverContinued .start 1 (revisedText (revision o tokens) 0 ps).rawLines ∧
      lastRow (revisedText (revision o tokens) 0 ps) = [] := by
  have hρ : RevisesSoundly (revision o tokens) tokens := by
    refine revisesSoundly_revision h ?_
    intro site hsite hne
    obtain ⟨hrewritten, hformat⟩ := newText_ne hne
    obtain ⟨text, htext, hstring⟩ := hnew site hsite hrewritten
    rw [hformat] at htext
    cases htext
    exact hstring hne
  obtain ⟨ps, closing, depth, tokens', hahead, hkinds, hclosing, hread, hrevised, hnever', hend'⟩ :=
    tokenize_revised hρ hend h hnever
  refine ⟨ps, closing, depth, tokens', hahead, ?_, hread, hrevised, hnever', hend'⟩
  refine result_tryFormat_revised hcr hend h hahead hkinds hclosing ?_
  intro site hsite hrewritten
  obtain ⟨text, htext, -⟩ := hnew site hsite hrewritten
  exact ⟨text, htext⟩

private theorem map_of_revised (hρ : Revises (revision o tokens) tokens)
    (htokens : tokens = pre ++ ts)
    (h : Revised (revision o tokens) pre.length ts us) :
    (us.filter (fun u => u.kind != .nl)).map (fun u => (u.kind, u.text)) =
      ((sitesFrom pre.length (numbered 0 pre).reverse ts).filter
        (fun site => site.token.kind != .nl)).map
          (fun site => (site.token.kind, site.newText o ((blocks tokens).map Block.docstring))) := by
  induction ts generalizing pre us with
  | nil =>
    cases h
    rfl
  | cons t ts ih =>
    have hrest := fun us h => @ih (pre ++ [t]) us (htokens.trans (by simp)) h
    rw [List.length_append, List.length_singleton, numbered_concat, List.reverse_append,
      List.reverse_singleton, List.singleton_append, Nat.zero_add] at hrest
    have htext := @newText_of_revision o tokens pre ts t htokens
    rw [sitesFrom]
    generalize hsite : (⟨pre.length, (numbered 0 pre).reverse, t, ts⟩ : Site) = site at htext ⊢
    have ht : site.token = t := by rw [← hsite]
    cases h with
    | @keep i t u ts us hkeep hkept hrevised =>
      rw [hkeep] at htext
      by_cases hkind : t.kind = .nl
      · simp [hkept.kind, ht, hkind, hrest us hrevised]
      · simp [hkept.kind, hkept.text, ht, hkind, htext, hrest us hrevised]
    | @drop i t ts us hdrop hrevised =>
      have hkind := kind_of_isBlankLine ((hρ.drop _ hdrop).of_split htokens).1
      simp [ht, hkind, hrest _ hrevised]
    | @replace i text t u ts us hreplace hreplaced hrevised =>
      rw [hreplace] at htext
      simp [hreplaced.kind, hreplaced.text, ht, htext, hrest us hrevised]

theorem token_sitesFrom (i : Nat) (before : List Numbered) (ts : List Token) :
    (sitesFrom i before ts).map Site.token = ts := by
  induction ts generalizing i before with
  | nil => rfl
  | cons t ts ih => rw [sitesFrom, List.map_cons, ih]

private theorem map_of_kind {α : Type} (f : α → TokenKind × Text) {kind : TokenKind}
    (hnl : kind ≠ .nl)
    (l : List α) :
    (((l.filter (fun a => (f a).1 != .nl)).map f).filter (fun q => q.1 == kind)).map Prod.snd =
      (l.filter (fun a => (f a).1 == kind)).map (fun a => (f a).2) := by
  rw [List.filter_map, List.filter_filter, List.map_map]
  have hfilter : l.filter (fun a => ((fun q : TokenKind × Text => q.1 == kind) ∘ f) a &&
      (f a).1 != .nl) = l.filter (fun a => (f a).1 == kind) := by
    apply List.filter_congr
    intro a _
    by_cases hkind : (f a).1 = kind
    · simp [hkind, hnl]
    · simp [hkind]
  rw [hfilter]
  rfl

private theorem text_of_kind {reported : List Nat}
    (h : (us.filter (fun u => u.kind != .nl)).map (fun u => (u.kind, u.text)) =
      ((sites tokens).filter (fun site => site.token.kind != .nl)).map
        (fun site => (site.token.kind, site.newText o reported)))
    {kind : TokenKind} (hnl : kind ≠ .nl) (hstring : kind ≠ .string) :
    (us.filter (fun u => u.kind == kind)).map Token.text =
      (tokens.filter (fun t => t.kind == kind)).map Token.text := by
  have hkind := congrArg (fun l => (l.filter (fun q => q.1 == kind)).map Prod.snd) h
  rw [map_of_kind (fun u : Token => (u.kind, u.text)) hnl,
    map_of_kind (fun site : Site => (site.token.kind, site.newText o reported)) hnl] at hkind
  have htokens := token_sitesFrom 0 [] tokens
  rw [show tokens = (sites tokens).map Site.token from htokens.symm, List.filter_map, List.map_map]
  refine hkind.trans (List.map_congr_left ?_)
  intro site hsite
  have hsiteKind : site.token.kind = kind := by
    simpa using (List.mem_filter.mp hsite).2
  by_contra hne
  have hrewritten := kind_of_isRewritten (newText_ne hne).1
  exact hstring (hsiteKind.symm.trans hrewritten)

/-- If the new text of every docstring that is replaced is a complete literal, a source without
carriage returns, unfinished lines and continued lines is formatted to a source that reads as the
same tokens, less line breaks of blank lines: each has its kind, and its text or the new text of a
docstring.  All other tokens, indentation and comments among them, are kept. -/
theorem formatted_keeps_tokens (o : Options) (hcr : '\r' ∉ s)
    (hend : s = [] ∨ s.endsWithNewline = true) (h : tokenize s = .ok tokens)
    (hnever : NeverContinued .start 1 s.rawLines)
    (hnew : ∀ site ∈ sites tokens, site.IsRewritten o ((blocks tokens).map Block.docstring) →
      ∃ text, (Docstring.format o site.token.lineIndent site.token.text).result = .ok text ∧
        (text ≠ site.token.text → IsString text)) :
    ∃ out tokens', (tryFormat o s).result = .ok (.ok out) ∧ tokenize out = .ok tokens' ∧
      (tokens'.filter (fun t => t.kind != .nl)).map (fun t => (t.kind, t.text)) =
        ((sites tokens).filter (fun site => site.token.kind != .nl)).map
          (fun site => (site.token.kind, site.newText o ((blocks tokens).map Block.docstring))) ∧
      ∀ kind, kind ≠ .nl → kind ≠ .string →
        (tokens'.filter (fun t => t.kind == kind)).map Token.text =
          (tokens.filter (fun t => t.kind == kind)).map Token.text := by
  obtain ⟨ps, -, -, tokens', -, hout, hread, hrevised, -, -⟩ :=
    exists_formatted hcr (lastRow_of_complete hend) h hnever hnew
  have hpairs := map_of_revised (revises_revision o h) (List.nil_append tokens).symm hrevised
  exact ⟨_, tokens', hout, hread, hpairs, fun kind hnl hstring => text_of_kind hpairs hnl hstring⟩

/-- A class with a docstring between blank lines keeps all else. -/
theorem formatted_keeps_tokens_of_class :
    let s : Text := "class A:\n\n    '''do it'''  # why\n\n    x = (1,\n\n  2)\n".toList
    let new : Text := "\"\"\"Do it.\"\"\"".toList
    let out : Text := "class A:\n    \"\"\"Do it.\"\"\"  # why\n    x = (1,\n\n  2)\n".toList
    '\r' ∉ s ∧ s.endsWithNewline = true ∧ NeverContinued .start 1 s.rawLines ∧
      ∃ tokens tokens', tokenize s = .ok tokens ∧
        (∀ site ∈ sites tokens, site.IsRewritten {} ((blocks tokens).map Block.docstring) →
          (Docstring.format {} site.token.lineIndent site.token.text).result = .ok new) ∧
        IsString new ∧ (tryFormat {} s).result = .ok (.ok out) ∧ tokenize out = .ok tokens' ∧
        (tokens'.filter (fun t => t.kind != .nl)).map (fun t => (t.kind, t.text)) =
          ((sites tokens).filter (fun site => site.token.kind != .nl)).map
            (fun site =>
              (site.token.kind, site.newText {} ((blocks tokens).map Block.docstring))) ∧
        (tokens'.filter (fun t => t.kind == .comment)).map Token.text = ["# why".toList] := by
  intro s new out
  have hcr : '\r' ∉ s := by decide
  have hend : s.endsWithNewline = true := by decide
  have hnever : NeverContinued .start 1 s.rawLines := by decide +kernel
  have hstring : IsString new :=
    (isString_iff (o := ⟨[], Docstring.tripleDouble⟩) (by simp [Opening.all]) "Do it.\"\"\"".toList).mpr
      (by decide)
  have hout : (tryFormat {} s).result = .ok (.ok out) := by decide +kernel
  have hfacts : (tokenize s).toOption.any (fun tokens =>
      (sites tokens).all (fun site =>
        !decide (site.IsRewritten {} ((blocks tokens).map Block.docstring)) ||
          (Docstring.format {} site.token.lineIndent site.token.text).result.toOption ==
            some new) &&
      (tokens.filter (fun t => t.kind == .comment)).map Token.text == ["# why".toList]) = true := by
    decide +kernel
  cases htokens : tokenize s with
  | error cause =>
    rw [htokens] at hfacts
    cases hfacts
  | ok tokens =>
    simp only [htokens, Except.toOption, Option.any_some, Bool.and_eq_true, List.all_eq_true,
      Bool.or_eq_true, Bool.not_eq_true', decide_eq_false_iff_not, beq_iff_eq] at hfacts
    obtain ⟨hformats, hcomments⟩ := hfacts
    have hnew : ∀ site ∈ sites tokens,
        site.IsRewritten {} ((blocks tokens).map Block.docstring) →
          (Docstring.format {} site.token.lineIndent site.token.text).result = .ok new := by
      intro site hsite hrewritten
      have htext := (hformats site hsite).resolve_left (fun h => h hrewritten)
      split at htext
      · rename_i text hresult
        cases htext
        exact hresult
      · cases htext
    obtain ⟨out', tokens', hout', hread, hpairs, hkinds⟩ := formatted_keeps_tokens {} hcr
      (Or.inr hend) htokens hnever
      (fun site hsite hrewritten => ⟨new, hnew site hsite hrewritten, fun _ => hstring⟩)
    rw [hout] at hout'
    cases hout'
    refine ⟨hcr, hend, hnever, tokens, tokens', rfl, hnew, hstring, hout, hread, hpairs, ?_⟩
    rw [hkinds .comment (by decide) (by decide), hcomments]

end Sources

end DocstringFormat.Source
