import DocstringFormat.Proofs.Source.Documented
import DocstringFormat.Proofs.Source.Splice
import Mathlib.Data.List.Forall2

/-!
Which strings formatting touches.

A string keeps its text unless it could be a docstring, is in scope, has another formatted text,
and either documents something or opens a block.  The last condition lets in strings that document
nothing: those that only follow some statement.  Hence the strings with new text are all reported
as docstrings exactly if no such stray string is in scope and has another formatted text
(`formatted_are_reported_iff`).
-/

set_option autoImplicit false

namespace DocstringFormat.Source

section Endings

/-- A source with every line ended by a line feed. -/
def unixLines (x : Text) : Text :=
  Text.terminateAll ['\n'] x.terminatedLines

/-- A formatted text with the line ending that most lines of the source have. -/
def restoreEndings (x formatted : Text) : Text :=
  match Text.LineEnding.dominant x.terminatedLines with
  | .lf => formatted
  | newline => Text.terminateAll newline.text formatted.terminatedLines

theorem tryFormat_eq (o : Options) (x : Text) :
    tryFormat o x = Except.map (restoreEndings x) <$> formatCode o (unixLines x) := by
  rw [tryFormat]
  by_cases hempty : x.isEmpty = true
  · rw [if_pos hempty, List.isEmpty_iff.mp hempty]
    rfl
  · have hrestore : restoreEndings x = fun formatted =>
        match Text.LineEnding.dominant x.terminatedLines with
        | .lf => formatted
        | newline => Text.terminateAll newline.text formatted.terminatedLines := rfl
    rw [if_neg hempty, hrestore, unixLines]
    dsimp only
    generalize formatCode o (Text.terminateAll ['\n'] x.terminatedLines) = formatted
    generalize Text.LineEnding.dominant x.terminatedLines = ending
    obtain ⟨events, result⟩ := formatted
    rcases result with fault | cause | out <;> cases ending <;>
      simp [Functor.map, bind, Traced.bind, Traced.pure, pure, Except.map]

private theorem result_map {α β : Type} (f : α → β) (x : Traced α) :
    (f <$> x).result = x.result.map f := by
  obtain ⟨events, result⟩ := x
  cases result <;> rfl

theorem result_tryFormat_eq (o : Options) (x : Text) :
    (tryFormat o x).result =
      (formatCode o (unixLines x)).result.map (Except.map (restoreEndings x)) := by
  rw [tryFormat_eq, result_map]

theorem result_format_eq (o : Options) (x : Text) :
    (format o x).result = (formatCode o (unixLines x)).result.map fun read =>
      match read with
      | .ok formatted => restoreEndings x formatted
      | .error _ => x := by
  have htry := result_tryFormat_eq o x
  rw [format]
  simp only [bind, Traced.bind]
  rw [htry]
  rcases (formatCode o (unixLines x)).result with fault | cause | formatted <;> rfl

end Endings

section Tokens

variable {o : Options} {reported : List Nat} {s : Text} {tokens : List Token}

theorem forall₂_formatSites {ss : List Site} {ts : List Token}
    (h : (formatSites o reported ss).result = .ok ts) :
    List.Forall₂ (fun site t => (site.format o reported).result = .ok t) ss ts := by
  induction ss generalizing ts with
  | nil =>
    cases h
    exact List.Forall₂.nil
  | cons site ss ih =>
    rw [result_formatSites_cons] at h
    cases hfirst : (site.format o reported).result with
    | error fault =>
      rw [hfirst] at h
      cases h
    | ok t =>
      cases hrest : (formatSites o reported ss).result with
      | error fault =>
        rw [hfirst, hrest] at h
        cases h
      | ok more =>
        rw [hfirst, hrest] at h
        cases h
        exact List.Forall₂.cons hfirst (ih hrest)

theorem exists_mem_zip {α β : Type} {l : List α} {m : List β} (hlength : l.length = m.length)
    {a : α} (ha : a ∈ l) : ∃ b, (a, b) ∈ l.zip m := by
  obtain ⟨i, hi, rfl⟩ := List.mem_iff_getElem.mp ha
  have hm : i < m.length := hlength ▸ hi
  refine ⟨m[i], List.mem_iff_getElem.mpr ⟨i, ?_, List.getElem_zip⟩⟩
  rw [List.length_zip]
  exact Nat.lt_min.mpr ⟨hi, hm⟩

private theorem kind_ne_encoding_of_mem (h : tokenize s = .ok tokens) :
    ∀ t ∈ tokens, t.kind ≠ .encoding := by
  obtain ⟨scanned, st, rows, lastLine, rfl, hscanned⟩ := exists_lawful h
  intro t ht
  rcases List.mem_append.mp ht with ht | ht
  · obtain ⟨_, _, _, _, hlawful⟩ := hscanned t ht
    exact hlawful.kind_ne_encoding
  · rcases kind_of_mem_closingTokens ht with hkind | hkind | hkind <;> simp [hkind]

theorem kind_before_ne_encoding (h : tokenize s = .ok tokens) {site : Site}
    (hsite : site ∈ sites tokens) : ∀ n ∈ site.before, n.token.kind ≠ .encoding := by
  obtain ⟨pre, htokens, -, hbefore⟩ := mem_sites hsite
  intro n hn
  apply kind_ne_encoding_of_mem h
  rw [hbefore] at hn
  have hmem := List.mem_map_of_mem (f := Numbered.token) (List.mem_reverse.mp hn)
  rw [map_token_numbered] at hmem
  rw [htokens]
  exact List.mem_append_left _ hmem

/-- The literal at a site has another formatted text. -/
def Site.Changes (o : Options) (site : Site) : Prop :=
  ∃ text, (Docstring.format o site.token.lineIndent site.token.text).result = .ok text ∧
    text ≠ site.token.text

/-- A string that could be a docstring and opens a block, but documents nothing. -/
def Site.IsStray (site : Site) : Prop :=
  site.isCandidate = true ∧ site.opensBlock = true ∧ site.subject? = none

theorem isRewritten_iff_subject? (h : tokenize s = .ok tokens) {site : Site}
    (hsite : site ∈ sites tokens) :
    site.IsRewritten o ((blocks tokens).map Block.docstring) ↔
      site.isCandidate = true ∧ inScope o site.token = true ∧
        (site.subject?.isSome = true ∨ site.opensBlock = true) := by
  rw [Site.IsRewritten, mem_reported_iff h hsite, opensBlock_iff (kind_before_ne_encoding h hsite)]
  constructor
  · rintro ⟨hcandidate, hscope, hopens⟩
    exact ⟨hcandidate, hscope, hopens.imp_left And.right⟩
  · rintro ⟨hcandidate, hscope, hopens⟩
    exact ⟨hcandidate, hscope, hopens.imp_left (⟨hcandidate, ·⟩)⟩

theorem text_ne_iff {site : Site} {t : Token} (hbefore : ∀ n ∈ site.before, n.token.kind ≠ .encoding)
    (h : (site.format o reported).result = .ok t) :
    t = site.token.withText t.text ∧
      (t.text ≠ site.token.text ↔ site.IsRewritten o reported ∧ site.Changes o) := by
  rw [result_format hbefore] at h
  by_cases hrewritten : site.IsRewritten o reported
  · rw [if_pos hrewritten] at h
    cases hformat : (Docstring.format o site.token.lineIndent site.token.text).result with
    | error fault =>
      rw [hformat] at h
      cases h
    | ok text =>
      rw [hformat] at h
      cases h
      refine ⟨rfl, fun hne => ⟨hrewritten, text, hformat, hne⟩, ?_⟩
      rintro ⟨-, text', htext', hne⟩
      rw [hformat] at htext'
      cases htext'
      exact hne
  · rw [if_neg hrewritten] at h
    cases h
    exact ⟨rfl, fun hne => absurd rfl hne, fun hboth => absurd hboth.1 hrewritten⟩

end Tokens

section Sources

variable {x out : Text} {tokens : List Token}

/-- What formatting puts out are the tokens of the source, some of them with new text and less the
line breaks of dropped blank lines.  A token has new text exactly if it is a string that could be a
docstring, is in scope, documents something or opens a block, and has another formatted text.  The
strings with new text are all reported as docstrings exactly if this happens to no stray string. -/
theorem formatted_are_reported_iff (o : Options) (h : tokenize (unixLines x) = .ok tokens)
    (hout : (tryFormat o x).result = .ok (.ok out)) :
    ∃ ts : List Token,
      out = restoreEndings x
        (render (withoutIndices (droppedBlanks o (blocks tokens) (sites tokens)) 0 ts)) ∧
      (∀ site ∈ sites tokens, site.index ∈ droppedBlanks o (blocks tokens) (sites tokens) →
        site.token.kind = .nl) ∧
      List.Forall₂ (fun site t => t = site.token.withText t.text ∧
        (t.text ≠ site.token.text ↔
          site.isCandidate = true ∧ inScope o site.token = true ∧
            (site.subject?.isSome = true ∨ site.opensBlock = true) ∧ site.Changes o))
        (sites tokens) ts ∧
      (List.Forall₂ (fun site t => t.text ≠ site.token.text →
          site.index ∈ (blocks tokens).map Block.docstring) (sites tokens) ts ↔
        ∀ site ∈ sites tokens, site.IsStray → inScope o site.token = true → ¬ site.Changes o) := by
  rw [result_tryFormat_eq, result_formatCode o h] at hout
  cases hsites : (formatSites o ((blocks tokens).map Block.docstring) (sites tokens)).result with
  | error fault =>
    rw [hsites] at hout
    cases hout
  | ok ts =>
    rw [hsites] at hout
    simp only [Except.map, Except.ok.injEq] at hout
    have htouched : List.Forall₂ (fun site t => t = Token.withText site.token t.text ∧
        (t.text ≠ site.token.text ↔
          site.isCandidate = true ∧ inScope o site.token = true ∧
            (site.subject?.isSome = true ∨ site.opensBlock = true) ∧ site.Changes o))
        (sites tokens) ts := by
      have hformatted := List.forall₂_iff_zip.mp (forall₂_formatSites hsites)
      refine List.forall₂_iff_zip.mpr ⟨hformatted.1, ?_⟩
      intro site t hzip
      have hsite := (List.of_mem_zip hzip).1
      obtain ⟨hplace, hchanged⟩ :=
        text_ne_iff (kind_before_ne_encoding h hsite) (hformatted.2 hzip)
      rw [isRewritten_iff_subject? h hsite] at hchanged
      simp only [and_assoc] at hchanged
      exact ⟨hplace, hchanged⟩
    refine ⟨ts, hout.symm, ?_, htouched, ?_⟩
    · intro site hsite hdropped
      obtain ⟨pre, htokens, hindex, -⟩ := mem_sites hsite
      rw [hindex] at hdropped
      exact kind_of_isBlankLine ((blank_of_dropped h hdropped).of_split htokens).1
    · rw [List.forall₂_iff_zip] at htouched ⊢
      obtain ⟨hlength, htouched⟩ := htouched
      constructor
      · rintro ⟨-, hreported⟩ site hsite ⟨hcandidate, hopens, hsubject⟩ hscope hchanges
        obtain ⟨t, hzip⟩ := exists_mem_zip hlength hsite
        have hnew := (htouched hzip).2.mpr ⟨hcandidate, hscope, Or.inr hopens, hchanges⟩
        have hsome := ((mem_reported_iff h hsite).mp (hreported hzip hnew)).2
        rw [hsubject] at hsome
        cases hsome
      · intro hstray
        refine ⟨hlength, ?_⟩
        intro site t hzip hnew
        have hsite := (List.of_mem_zip hzip).1
        obtain ⟨hcandidate, hscope, hreason, hchanges⟩ := (htouched hzip).2.mp hnew
        rw [mem_reported_iff h hsite]
        refine ⟨hcandidate, ?_⟩
        by_contra hnone
        have hsubject : site.subject? = none := Option.not_isSome_iff_eq_none.mp hnone
        have hopens := hreason.resolve_left hnone
        exact hstray site hsite ⟨hcandidate, hopens, hsubject⟩ hscope hchanges

/-- A string after an import documents nothing and is rewritten all the same. -/
theorem string_after_import_is_rewritten :
    let x : Text := "import os\n'''stray string'''\n".toList
    let out : Text := "import os\n\"\"\"Stray string.\"\"\"\n".toList
    ∃ tokens ts, tokenize (unixLines x) = .ok tokens ∧ blocks tokens = [] ∧
      (tryFormat {} x).result = .ok (.ok out) ∧
      out = restoreEndings x
        (render (withoutIndices (droppedBlanks {} (blocks tokens) (sites tokens)) 0 ts)) ∧
      ¬ List.Forall₂ (fun site t => t.text ≠ site.token.text →
          site.index ∈ (blocks tokens).map Block.docstring) (sites tokens) ts := by
  intro x out
  have hout : (tryFormat {} x).result = .ok (.ok out) := by decide +kernel
  have hstray : (tokenize (unixLines x)).toOption.any (fun tokens => blocks tokens == [] &&
      (sites tokens).any fun site => site.isCandidate && site.opensBlock &&
        site.subject?.isNone && inScope {} site.token &&
        (Docstring.format {} site.token.lineIndent site.token.text).result.toOption.any
          (· != site.token.text)) = true := by
    decide +kernel
  cases htokens : tokenize (unixLines x) with
  | error cause =>
    rw [htokens] at hstray
    cases hstray
  | ok tokens =>
    obtain ⟨ts, hrender, -, -, hiff⟩ := formatted_are_reported_iff {} htokens hout
    simp only [htokens, Except.toOption, Option.any_some, Bool.and_eq_true, beq_iff_eq,
      List.any_eq_true, Option.isNone_iff_eq_none] at hstray
    obtain ⟨hblocks, site, hsite, ⟨⟨⟨hcandidate, hopens⟩, hsubject⟩, hscope⟩, hchanges⟩ := hstray
    refine ⟨tokens, ts, rfl, hblocks, hout, hrender, fun hall => ?_⟩
    refine hiff.mp hall site hsite ⟨hcandidate, hopens, hsubject⟩ hscope ?_
    cases hformat : (Docstring.format {} site.token.lineIndent site.token.text).result with
    | error fault =>
      rw [hformat] at hchanges
      cases hchanges
    | ok text =>
      rw [hformat] at hchanges
      exact ⟨text, hformat, by simpa using hchanges⟩

end Sources

end DocstringFormat.Source
