import DocstringFormat.Proofs.Docstring.Characters
import DocstringFormat.Proofs.Source.Coverage
import DocstringFormat.Proofs.Source.Touched

/-!
Line endings of a formatted source.

Formatting works on a source whose lines all end with line feeds, and gives the result the ending
that most lines of the source have.  In between no carriage return can appear: a rendered text has no
character but those of the tokens and their lines (`mem_renderFrom`), those stand in the source
(`mem_of_mem_token`), and formatted docstrings add none (`return_not_mem_formatCode`).  Hence it makes
no difference whether the endings of a source are replaced before or after it is formatted, and all
lines of the output have one ending (`format_replaceNewlines_eq`).
-/

set_option autoImplicit false

namespace DocstringFormat.Source

section Characters

variable {o : Options} {s f : Text} {tokens : List Token} {c : Char}

private theorem mem_gap {cur : Cursor} {t : Token} (h : c ∈ cur.gap t) :
    c ∈ cur.line ∨ c ∈ t.line := by
  simp only [Cursor.gap] at h
  generalize (if cur.place.row < t.start.row then 0 else cur.place.column) = column at h
  rcases List.mem_append.mp h with h | h
  · left
    split at h
    · exact List.mem_reverse.mp (( List.takeWhile_prefix _).subset (List.mem_reverse.mp h))
    · cases h
  · right
    split at h
    · exact Text.Over.extract? (P := (· ∈ t.line)) (fun _ hc => hc) column t.start.column c h
    · cases h

private theorem mem_renderFrom {cur : Cursor} {ts : List Token} (h : c ∈ renderFrom cur ts) :
    c ∈ cur.line ∨ ∃ t ∈ ts, c ∈ t.text ∨ c ∈ t.line := by
  induction ts generalizing cur with
  | nil => cases h
  | cons t ts ih =>
    have hlater : (∃ u ∈ ts, c ∈ u.text ∨ c ∈ u.line) → ∃ u ∈ t :: ts, c ∈ u.text ∨ c ∈ u.line :=
      fun ⟨u, hu, hc⟩ => ⟨u, List.mem_cons_of_mem t hu, hc⟩
    rw [renderFrom] at h
    split at h
    · exact (ih h).imp_right hlater
    · rcases List.mem_append.mp h with h | h
      · rcases List.mem_append.mp h with h | h
        · exact (mem_gap h).imp_right fun hc => ⟨t, List.mem_cons_self, Or.inr hc⟩
        · exact Or.inr ⟨t, List.mem_cons_self, Or.inl h⟩
      · rcases ih h with hline | hrest
        · rw [Cursor.advance] at hline
          split at hline
          · exact Or.inl hline
          · exact Or.inr ⟨t, List.mem_cons_self, Or.inr hline⟩
        · exact Or.inr (hlater hrest)

private theorem mem_of_mem_token (h : tokenize s = .ok tokens) {t : Token} (ht : t ∈ tokens)
    (hc : c ∈ t.text ∨ c ∈ t.line) : c ∈ s := by
  obtain ⟨scanned, st, hscan, -, -, -, rfl⟩ := tokenize_eq_ok h
  rcases List.mem_append.mp ht with ht | ht
  · obtain ⟨x, y, hstands, rfl⟩ := exists_stands (List.append_nil _).symm hscan ht
    rcases hc with hc | hc
    · simp [hc]
    · exact hstands.line_sublist.subset hc
  · obtain ⟨htext, hline⟩ := (closesSource_closingTokens _ _ _ _).empty t ht
    rw [htext, hline] at hc
    rcases hc with hc | hc <;> cases hc

theorem mem_of_mem_withoutIndices {α : Type} {dropped : List Nat} {i : Nat} {l : List α} {a : α}
    (h : a ∈ withoutIndices dropped i l) : a ∈ l := by
  induction l generalizing i with
  | nil => cases h
  | cons b l ih =>
    rw [withoutIndices] at h
    split at h
    · exact List.mem_cons_of_mem b (ih h)
    · rcases List.mem_cons.mp h with rfl | h
      · exact List.mem_cons_self
      · exact List.mem_cons_of_mem b (ih h)

theorem exists_of_mem_right {α β : Type} {R : α → β → Prop} {l : List α} {m : List β} {b : β}
    (h : List.Forall₂ R l m) (hb : b ∈ m) : ∃ a ∈ l, R a b := by
  induction h with
  | nil => cases hb
  | cons hfirst _ ih =>
    rcases List.mem_cons.mp hb with rfl | hb
    · exact ⟨_, List.mem_cons_self, hfirst⟩
    · obtain ⟨a, ha, hab⟩ := ih hb
      exact ⟨a, List.mem_cons_of_mem _ ha, hab⟩

private theorem return_not_mem_of_format {reported : List Nat} {site : Site} {t : Token}
    (hbefore : ∀ n ∈ site.before, n.token.kind ≠ .encoding)
    (h : (site.format o reported).result = .ok t)
    (hcr : ∀ c, c ∈ site.token.text ∨ c ∈ site.token.line → c ≠ '\r') :
    ∀ c, c ∈ t.text ∨ c ∈ t.line → c ≠ '\r' := by
  rw [result_format hbefore] at h
  split at h
  · cases hformat : (Docstring.format o site.token.lineIndent site.token.text).result with
    | error fault =>
      rw [hformat] at h
      cases h
    | ok text =>
      rw [hformat] at h
      cases h
      have hindent : '\r' ∉ site.token.lineIndent := by
        intro hmem
        exact hcr _ (Or.inr (( List.takeWhile_prefix _).subset
          (( List.takeWhile_prefix _).subset hmem))) rfl
      have htext := Docstring.return_not_mem_format (fun hmem => hcr _ (Or.inl hmem) rfl) hindent
        hformat
      rintro c (hc | hc) rfl
      · exact htext hc
      · exact hcr _ (Or.inr hc) rfl
  · cases h
    exact hcr

/-- Formatting a source without carriage returns gives one without them. -/
theorem return_not_mem_formatCode (hcr : '\r' ∉ s) (h : (formatCode o s).result = .ok (.ok f)) :
    '\r' ∉ f := by
  cases htokens : tokenize s with
  | error cause =>
    rw [formatCode, htokens] at h
    cases h
  | ok tokens =>
    rw [result_formatCode o htokens] at h
    cases hsites : (formatSites o ((blocks tokens).map Block.docstring) (sites tokens)).result with
    | error fault =>
      rw [hsites] at h
      cases h
    | ok ts =>
      rw [hsites] at h
      cases h
      intro hmem
      obtain ⟨t, ht, hc⟩ := (mem_renderFrom hmem).resolve_left List.not_mem_nil
      obtain ⟨site, hsite, hformat⟩ :=
        exists_of_mem_right (forall₂_formatSites hsites) (mem_of_mem_withoutIndices ht)
      obtain ⟨pre, hsplit, -, -⟩ := mem_sites hsite
      have htoken : site.token ∈ tokens := by
        rw [hsplit]
        simp
      refine return_not_mem_of_format (kind_before_ne_encoding htokens hsite) hformat ?_ _ hc rfl
      rintro c hin rfl
      exact hcr (mem_of_mem_token htokens htoken hin)

end Characters

section Endings

variable {o : Options} {s x f : Text}

theorem return_not_mem_unixLines (x : Text) : '\r' ∉ unixLines x :=
  Text.not_mem_terminateAll (Or.inr rfl) (by decide) x

private theorem restoreEndings_eq (x : Text) (hf : '\r' ∉ f) :
    restoreEndings x f =
      Text.terminateAll (Text.LineEnding.dominant x.terminatedLines).text f.terminatedLines := by
  unfold restoreEndings
  split
  · rename_i hlf
    rw [hlf]
    exact (Text.terminateAll_terminatedLines hf).symm
  · rfl

theorem unixLines_restoreEndings (x : Text) (hf : '\r' ∉ f) :
    unixLines (restoreEndings x f) = f := by
  rw [restoreEndings_eq x hf]
  exact (Text.terminatedLines_terminateAll _ hf).1

theorem restoreEndings_restoreEndings (x : Text) (hf : '\r' ∉ f) :
    restoreEndings (restoreEndings x f) f = restoreEndings x f := by
  by_cases hn : '\n' ∈ f
  · have hdominant := Text.dominant_terminateAll (Text.LineEnding.dominant x.terminatedLines) hf hn
    rw [← restoreEndings_eq x hf] at hdominant
    rw [restoreEndings_eq (restoreEndings x f) hf, hdominant, restoreEndings_eq x hf]
  · have hsame : ∀ y, restoreEndings y f = f := by
      intro y
      rw [restoreEndings_eq y hf]
      by_cases hnil : f = []
      · rw [hnil]
        rfl
      · rw [Text.terminatedLines_of_not_mem hnil hn hf, Text.terminateAll, List.flatMap_singleton,
          Text.terminate, Text.dropLineEnding_of_not_mem hn hf, if_pos rfl]
    rw [hsame, hsame]

private theorem restoreEndings_eq_replaceNewlines (x : Text) (hf : '\r' ∉ f) :
    restoreEndings x f =
      Text.replaceNewlines (Text.LineEnding.dominant x.terminatedLines).text f := by
  rw [restoreEndings_eq x hf, Text.terminateAll_eq_replaceNewlines _ hf]

private theorem unixLines_of_not_mem (hcr : '\r' ∉ s) : unixLines s = s :=
  Text.terminateAll_terminatedLines hcr

private theorem restoreEndings_of_not_mem (hcr : '\r' ∉ s) (f : Text) : restoreEndings s f = f := by
  rw [restoreEndings, Text.dominant_terminatedLines hcr]

end Endings

section Sources

open Text (LineEnding replaceNewlines)

variable {o : Options} {s x out : Text}

private theorem format_replaceNewlines_eq (o : Options) (e : LineEnding) (hcr : '\r' ∉ s)
    (hn : '\n' ∈ s) :
    format o (replaceNewlines e.text s) = replaceNewlines e.text <$> format o s := by
  have hends := Text.terminateAll_eq_replaceNewlines e.text hcr
  have hunix : unixLines (replaceNewlines e.text s) = s := by
    rw [← hends]
    exact (Text.terminatedLines_terminateAll e hcr).1
  have hdominant : LineEnding.dominant (replaceNewlines e.text s).terminatedLines = e := by
    rw [← hends]
    exact Text.dominant_terminateAll e hcr hn
  have hrestore : ∀ f, '\r' ∉ f →
      restoreEndings (replaceNewlines e.text s) f = replaceNewlines e.text f := by
    intro f hf
    rw [restoreEndings_eq_replaceNewlines _ hf, hdominant]
  have hsame : restoreEndings s = id := funext (restoreEndings_of_not_mem hcr)
  have hout := @return_not_mem_formatCode o s
  rw [format, format, tryFormat_eq, tryFormat_eq, hunix, unixLines_of_not_mem hcr, hsame]
  generalize formatCode o s = formatted at hout
  obtain ⟨events, result⟩ := formatted
  rcases result with fault | cause | f
  · rfl
  · simp [Functor.map, bind, Traced.bind, Traced.pure, pure, Except.map, Traced.report]
  · simp [Functor.map, bind, Traced.bind, Traced.pure, pure, Except.map, hrestore f (hout hcr rfl)]

private theorem exists_of_tryFormat (h : (tryFormat o x).result = .ok (.ok out)) :
    ∃ f, (tryFormat o (unixLines x)).result = .ok (.ok f) ∧ '\r' ∉ f ∧
      out = replaceNewlines (LineEnding.dominant x.terminatedLines).text f := by
  have hcr := return_not_mem_unixLines x
  rw [result_tryFormat_eq] at h
  rw [result_tryFormat o hcr]
  cases hresult : (formatCode o (unixLines x)).result with
  | error fault =>
    rw [hresult] at h
    cases h
  | ok read =>
    cases read with
    | error cause =>
      rw [hresult] at h
      cases h
    | ok f =>
      rw [hresult] at h
      cases h
      have hf := return_not_mem_formatCode hcr hresult
      exact ⟨f, rfl, hf, restoreEndings_eq_replaceNewlines x hf⟩

private theorem exists_body_of_hasLineEnding (e : LineEnding) {f line : Text} (hf : '\r' ∉ f)
    (hline : line ∈ (replaceNewlines e.text f).terminatedLines) (hend : hasLineEnding line = true) :
    ∃ body, line = body ++ e.text ∧ '\n' ∉ body ∧ '\r' ∉ body := by
  obtain ⟨body, rfl | hbody, hn, hr⟩ := Text.mem_terminatedLines_replaceNewlines e hf hline
  · exfalso
    rw [hasLineEnding] at hend
    split at hend
    · rename_i c hlast
      have hmem := List.mem_of_getLast? hlast
      rcases Bool.or_eq_true_iff.mp hend with hc | hc
      · exact hn (beq_iff_eq.mp hc ▸ hmem)
      · exact hr (beq_iff_eq.mp hc ▸ hmem)
    · cases hend
  · exact ⟨body, hbody, hn, hr⟩

/-- Line endings commute with formatting.  The line feeds of a source may all be replaced by another
ending before or after it is formatted; events, faults and sources that cannot be read are no
exception.  Whatever endings a source mixes, if it can be formatted, all finished lines of the output
end with the one that its own lines have most often, and apart from that the output is the one for the
source with line feeds only. -/
theorem format_commutes_with_endings (o : Options) :
    (∀ (e : LineEnding) (s : Text), '\r' ∉ s → '\n' ∈ s →
      format o (replaceNewlines e.text s) = replaceNewlines e.text <$> format o s) ∧
    ∀ x out : Text, (tryFormat o x).result = .ok (.ok out) →
      let ending := LineEnding.dominant x.terminatedLines
      (∀ line ∈ out.terminatedLines, hasLineEnding line = true →
        ∃ body, line = body ++ ending.text ∧ '\n' ∉ body ∧ '\r' ∉ body) ∧
      (∀ e, (x.terminatedLines.filterMap LineEnding.ofLine?).count e ≤
        (x.terminatedLines.filterMap LineEnding.ofLine?).count ending) ∧
      ∃ f, (tryFormat o (unixLines x)).result = .ok (.ok f) ∧ '\r' ∉ f ∧
        out = replaceNewlines ending.text f := by
  refine ⟨fun e s hcr hn => format_replaceNewlines_eq o e hcr hn, fun x out h => ?_⟩
  obtain ⟨f, hf, hcr, rfl⟩ := exists_of_tryFormat h
  exact ⟨fun line hline hend => exists_body_of_hasLineEnding _ hcr hline hend,
    Text.count_le_dominant x.terminatedLines, f, hf, hcr, rfl⟩

/-- A source with two kinds of line endings next to each other and an open last line. -/
theorem format_commutes_with_endings_of_class :
    let s : Text := "class A:\n\n    '''do it'''\n".toList
    let x : Text := "class A:\r\r\n    '''do it'''\r\rx = 1".toList
    let out : Text := "class A:\r    \"\"\"Do it.\"\"\"\r\rx = 1".toList
    '\r' ∉ s ∧ '\n' ∈ s ∧
      (format {} (replaceNewlines ['\r', '\n'] s)).result =
        .ok "class A:\r\n    \"\"\"Do it.\"\"\"\r\n".toList ∧
      (tryFormat {} x).result = .ok (.ok out) ∧
      ∀ line ∈ out.terminatedLines, hasLineEnding line = true →
        ∃ body, line = body ++ ['\r'] ∧ '\n' ∉ body ∧ '\r' ∉ body := by
  intro s x out
  have hcr : '\r' ∉ s := by decide
  have hn : '\n' ∈ s := by decide
  have hformat : (format {} s).result = .ok "class A:\n    \"\"\"Do it.\"\"\"\n".toList := by
    decide +kernel
  have hout : (tryFormat {} x).result = .ok (.ok out) := by decide +kernel
  have hending : LineEnding.dominant x.terminatedLines = .cr := by decide +kernel
  have hcommutes := (format_commutes_with_endings {}).1 .crlf s hcr hn
  have hlines := ((format_commutes_with_endings {}).2 x out hout).1
  rw [hending] at hlines
  refine ⟨hcr, hn, ?_, hout, hlines⟩
  rw [LineEnding.text] at hcommutes
  rw [hcommutes]
  simp only [Functor.map, Traced.bind, hformat]
  rfl

end Sources

end DocstringFormat.Source
