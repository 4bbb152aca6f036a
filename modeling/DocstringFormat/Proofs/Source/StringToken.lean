import DocstringFormat.Docstring.Literal
import DocstringFormat.Proofs.Source.Scan

/-!
Triple-quoted strings as the scanner reads them.

The scanner looks for the closing quote line by line.  That comes to the same as looking for it in
all of the text after the opening, since no quote and no escape goes beyond a line feed
(`closingLength?_append_line`).  So a text that opens like a docstring is read as one string
exactly if its closing quote is the first one that no backslash hides (`isString_iff`).
-/

set_option autoImplicit false

namespace DocstringFormat.Source

open Docstring (Opening)

/-- A source is one string, from its first character to its last. -/
def IsString (s : Text) : Prop :=
  ∃ t rest, tokenize s = .ok (t :: rest) ∧ t.kind = .string ∧ t.text = s ∧ ∀ u ∈ rest, u.text = []

section Closing

theorem escape_induction {P : Text → Prop} (nil : P []) (lone : P ['\\'])
    (escape : ∀ d s, P s → P ('\\' :: d :: s)) (plain : ∀ c s, c ≠ '\\' → P s → P (c :: s))
    (s : Text) : P s := by
  obtain ⟨n, hn⟩ : ∃ n, s.length = n := ⟨_, rfl⟩
  induction n using Nat.strong_induction_on generalizing s with
  | _ n ih =>
    cases s with
    | nil => exact nil
    | cons c s =>
      rw [List.length_cons] at hn
      by_cases hc : c = '\\'
      · subst hc
        cases s with
        | nil => exact lone
        | cons d s =>
          rw [List.length_cons] at hn
          exact escape d s (ih s.length (by omega) s rfl)
      · exact plain c s hc (ih s.length (by omega) s rfl)

variable {quote : Text}

theorem closingLength?_escape (d : Char) (s : Text) :
    closingLength? quote ('\\' :: d :: s) = (closingLength? quote s).map (· + 2) := by
  rw [closingLength?]

theorem closingLength?_plain {c : Char} (hc : c ≠ '\\') (s : Text) :
    closingLength? quote (c :: s) =
      if quote.isPrefixOf (c :: s) then some quote.length
      else (closingLength? quote s).map (· + 1) := by
  rw [closingLength?]
  · exact fun h => absurd h hc
  · exact fun _ _ h => absurd h hc

theorem closingLength?_append {s : Text} {n : Nat} (h : closingLength? quote s = some n)
    (rest : Text) : closingLength? quote (s ++ rest) = some n := by
  induction s using escape_induction generalizing n with
  | nil => cases h
  | lone => cases h
  | escape d s ih =>
    rw [closingLength?_escape] at h
    obtain ⟨m, hm, rfl⟩ := Option.map_eq_some_iff.mp h
    rw [List.cons_append, List.cons_append, closingLength?_escape, ih hm]
    rfl
  | plain c s hc ih =>
    rw [closingLength?_plain hc] at h
    rw [List.cons_append, closingLength?_plain hc]
    split at h
    · rename_i hquote
      have hlonger : quote.isPrefixOf (c :: (s ++ rest)) = true := by
        rw [List.isPrefixOf_iff_prefix] at hquote ⊢
        exact hquote.trans (List.prefix_append (c :: s) rest)
      rw [if_pos hlonger, h]
    · rename_i hquote
      obtain ⟨m, hm, rfl⟩ := Option.map_eq_some_iff.mp h
      -- The text that holds the quote is long enough to hold it here.
      obtain ⟨body, after, hs, -⟩ := closingLength?_eq_some hm
      have hlonger : ¬ quote.isPrefixOf (c :: (s ++ rest)) = true := by
        intro hprefix
        apply hquote
        rw [List.isPrefixOf_iff_prefix] at hprefix ⊢
        apply List.prefix_of_prefix_length_le hprefix (List.prefix_append (c :: s) rest)
        rw [hs]
        simp only [List.length_cons, List.length_append]
        omega
      rw [if_neg hlonger, ih hm]
      rfl

/-- Where a line has no closing quote, the search goes on in the next line. -/
theorem closingLength?_append_line (hquote : '\n' ∉ quote) (hne : quote ≠ []) {b : Text}
    (h : closingLength? quote (b ++ ['\n']) = none) (rest : Text) :
    closingLength? quote (b ++ '\n' :: rest) =
      (closingLength? quote rest).map (· + (b.length + 1)) := by
  induction b using escape_induction with
  | nil =>
    have hnot : ¬ quote.isPrefixOf ('\n' :: rest) = true := by
      rw [List.isPrefixOf_iff_prefix, ← List.nil_append ('\n' :: rest),
        Text.isPrefix_append_cons hquote, List.prefix_nil]
      exact hne
    rw [List.nil_append, closingLength?_plain (by decide), if_neg hnot]
    rfl
  | lone =>
    rw [List.singleton_append, closingLength?_escape]
    rfl
  | escape d b ih =>
    rw [List.cons_append, List.cons_append, closingLength?_escape, Option.map_eq_none_iff] at h
    rw [List.cons_append, List.cons_append, closingLength?_escape, ih h, Option.map_map]
    congr 1
  | plain c b hc ih =>
    -- The quote has no line feed, so it does not reach beyond this one.
    have hshort : ∀ z, quote <+: c :: (b ++ '\n' :: z) ↔ quote <+: c :: b :=
      Text.isPrefix_append_cons hquote (c :: b)
    rw [List.cons_append, closingLength?_plain hc] at h ⊢
    simp only [List.isPrefixOf_iff_prefix, hshort] at h ⊢
    split at h
    · cases h
    · rename_i hnot
      rw [Option.map_eq_none_iff] at h
      rw [if_neg hnot, ih h, Option.map_map]
      congr 1

end Closing

section Lines

variable {st : Scanner} {row : Nat} {opened quote line b : Text} {ls : List Text}

def Scanner.IsClosed (st : Scanner) : Prop :=
  st.depth = 0 ∧ st.continued = false ∧ st.pending = none

/-- What becomes of a string that is open before the text `y`: it stays open, or it ends with the
closing quote; nothing follows it if that quote ends the text. -/
def EndsString (result : Except Error (List Token × Scanner)) (opened quote y : Text) : Prop :=
  match closingLength? quote y with
  | none => ∃ st, result = .ok ([], st) ∧ st.pending ≠ none
  | some n =>
    (∀ tokens st, result = .ok (tokens, st) →
      ∃ t ts, tokens = t :: ts ∧ t.kind = .string ∧ t.text = opened ++ y.take n) ∧
    (n = y.length → ∃ t st, result = .ok ([t], st) ∧ t.kind = .string ∧ t.text = opened ++ y ∧
      st.IsClosed)

/-- What one line makes of an open string, `b` being the rest of the line after what is read. -/
def EndsInLine (result : Except Error (List Token × Scanner)) (opened quote b : Text) : Prop :=
  match closingLength? quote b with
  | none => ∃ st p, result = .ok ([], st) ∧ st.depth = 0 ∧ st.continued = false ∧
      st.pending = some p ∧ p.quote = quote ∧ p.text = opened ++ b
  | some n => ∃ t ts st, result = .ok (t :: ts, st) ∧ t.kind = .string ∧
      t.text = opened ++ b.take n ∧ (n = b.length → ts = [] ∧ st.IsClosed)

private theorem endsString_cons (hquote : '\n' ∉ quote) (hne : quote ≠ [])
    (hline : EndsInLine (scanLine st row line) opened quote b)
    (hb : ls ≠ [] → b.getLast? = some '\n') (hls : ls = [] ∨ ls.flatten ≠ [])
    (hrest : ∀ st p, st.depth = 0 → st.continued = false → st.pending = some p → p.quote = quote →
      EndsString (scanLines st (row + 1) ls) p.text quote ls.flatten) :
    EndsString (scanLines st row (line :: ls)) opened quote (b ++ ls.flatten) := by
  unfold EndsInLine at hline
  cases hclose : closingLength? quote b with
  | some n =>
    rw [hclose] at hline
    obtain ⟨t, ts, st', hscan, hkind, htext, hend⟩ := hline
    obtain ⟨body, after, hbody, hn⟩ := closingLength?_eq_some hclose
    have hle : n ≤ b.length := by
      rw [hbody, hn]
      simp
    unfold EndsString
    rw [closingLength?_append hclose]
    refine ⟨?_, ?_⟩
    · intro tokens last hall
      obtain ⟨mid, before, more, hscan', -, rfl⟩ := scanLines_cons hall
      cases hscan.symm.trans hscan'
      exact ⟨t, ts ++ more, rfl, hkind, by rw [htext, List.take_append_of_le_length hle]⟩
    · intro hlength
      rw [List.length_append] at hlength
      have hnil : ls = [] := by
        rcases hls with hnil | hnonempty
        · exact hnil
        · have hpos := List.length_pos_iff.mpr hnonempty
          omega
      subst hnil
      have hall : n = b.length := by
        simp only [List.flatten_nil, List.length_nil] at hlength
        omega
      obtain ⟨rfl, hclosed⟩ := hend hall
      refine ⟨t, st', ?_, hkind, ?_, hclosed⟩
      · rw [scanLines, hscan]
        rfl
      · rw [htext, hall]
        simp
  | none =>
    rw [hclose] at hline
    obtain ⟨st', p, hscan, hdepth, hcontinued, hpending, hp, htext⟩ := hline
    have hmore := hrest st' p hdepth hcontinued hpending hp
    have hlines : scanLines st row (line :: ls) =
        (scanLines st' (row + 1) ls).map fun r => ([] ++ r.1, r.2) := by
      rw [scanLines, hscan]
      rfl
    cases ls with
    | nil =>
      unfold EndsString
      rw [List.flatten_nil, List.append_nil, hclose, hlines]
      exact ⟨st', rfl, by simp [hpending]⟩
    | cons l ls =>
      -- The line is complete, so no quote and no escape goes on from it into the next one.
      obtain ⟨u, rfl⟩ := List.getLast?_eq_some_iff.mp (hb (by simp))
      have hall := closingLength?_append_line hquote hne hclose (l :: ls).flatten
      rw [List.append_cons] at hall
      unfold EndsString at hmore ⊢
      rw [hall, hlines]
      cases hfound : closingLength? quote (l :: ls).flatten with
      | none =>
        rw [hfound] at hmore
        obtain ⟨last, hlast, hopen⟩ := hmore
        exact ⟨last, by rw [hlast]; rfl, hopen⟩
      | some n =>
        rw [hfound] at hmore
        obtain ⟨hfirst, hend⟩ := hmore
        refine ⟨?_, ?_⟩
        · intro tokens last hok
          cases hscanned : scanLines st' (row + 1) (l :: ls) with
          | error cause =>
            rw [hscanned] at hok
            cases hok
          | ok result =>
            rw [hscanned] at hok
            cases hok
            obtain ⟨t, ts, htokens, hkind, ht⟩ := hfirst result.1 result.2 hscanned
            refine ⟨t, ts, by simpa using htokens, hkind, ?_⟩
            have hlength : n + (u.length + 1) = (u ++ ['\n']).length + n := by
              rw [List.length_append, List.length_singleton]
              omega
            have htake : (u ++ ['\n'] ++ (l :: ls).flatten).take (n + (u.length + 1)) =
                u ++ ['\n'] ++ (l :: ls).flatten.take n := by
              rw [hlength, List.take_length_add_append]
            rw [ht, htext, List.append_assoc opened]
            exact congrArg (opened ++ ·) htake.symm
        · intro hlength
          have hn : n = (l :: ls).flatten.length := by
            simp only [List.length_append, List.length_singleton] at hlength
            omega
          obtain ⟨t, last, hlast, hkind, ht, hclosed⟩ := hend hn
          refine ⟨t, last, by rw [hlast]; rfl, hkind, ?_, hclosed⟩
          rw [ht, htext, List.append_assoc]

private theorem endsInLine_scanInString {p : OpenString} (hp : st.pending = some p)
    (hdepth : st.depth = 0) (hcontinued : st.continued = false) (hlength : p.quote.length = 3) :
    EndsInLine (scanLine st row line) p.text p.quote line := by
  unfold EndsInLine
  rw [scanLine, hp]
  simp only [scanInString]
  cases hclose : closingLength? p.quote line with
  | none =>
    simp only
    rw [if_neg (by simp [hlength])]
    exact ⟨_, _, rfl, hdepth, hcontinued, rfl, rfl, rfl⟩
  | some n =>
    refine ⟨_, _, _, rfl, rfl, rfl, ?_⟩
    intro hn
    rw [hn, List.drop_length, scanFrom]
    exact ⟨rfl, hdepth, rfl, rfl⟩

theorem endsString_scanLines {p : OpenString} (hp : st.pending = some p)
    (hdepth : st.depth = 0) (hcontinued : st.continued = false) (hlength : p.quote.length = 3)
    (hquote : '\n' ∉ p.quote) (hrows : Rows ls []) :
    EndsString (scanLines st row ls) p.text p.quote ls.flatten := by
  induction ls generalizing st row p with
  | nil => exact ⟨st, rfl, by simp [hp]⟩
  | cons l ls ih =>
    obtain ⟨hne, hrow, hrest⟩ := hrows
    rw [List.append_nil] at hrow
    rw [List.flatten_cons]
    have hnil : ls = [] ∨ ls.flatten ≠ [] := by
      cases ls with
      | nil => exact Or.inl rfl
      | cons m ls => exact Or.inr (by simp [hrest.1])
    refine endsString_cons hquote (by rintro h; simp [h] at hlength)
      (endsInLine_scanInString hp hdepth hcontinued hlength) ?_ hnil ?_
    · intro hls
      rcases hrow.getLast? hne with hlast | ⟨-, hend⟩
      · exact hlast
      · exact absurd hend (hnil.resolve_left hls)
    · intro st' p' hdepth' hcontinued' hp' hsame
      rw [← hsame]
      exact ih hp' hdepth' hcontinued' (by rw [hsame]; exact hlength) (by rw [hsame]; exact hquote)
        hrest

end Lines

section Literals

variable {o : Opening} {body : Text}

theorem quote_of_opening (ho : o ∈ Opening.all) : o.quote.length = 3 ∧ '\n' ∉ o.quote := by
  have hall : ∀ o ∈ Opening.all, o.quote.length = 3 ∧ '\n' ∉ o.quote := by decide
  exact hall o ho

theorem lexeme_of_opening (ho : o ∈ Opening.all) (body : Text) :
    ∃ c rest, o.text ++ body = c :: rest ∧ isSpacing c = false ∧
      isCodeless (c :: rest) = false ∧
      lexeme c rest = stringLexeme (o.text ++ body) o.text.length o.quote := by
  simp only [Opening.all, List.mem_cons, List.not_mem_nil, or_false] at ho
  rcases ho with rfl | rfl | rfl | rfl | rfl | rfl | rfl | rfl | rfl | rfl <;>
    exact ⟨_, _, rfl, rfl, rfl, rfl⟩

private theorem endsInLine_opening (ho : o ∈ Opening.all) (b : Text) :
    EndsInLine (scanLine .start 1 (o.text ++ b)) o.text o.quote b := by
  obtain ⟨c, rest, hline, hspace, hcode, hlex⟩ := lexeme_of_opening ho b
  have hlength : 3 ≤ o.text.length := by
    have hquote := (quote_of_opening ho).1
    rw [Opening.text, List.length_append]
    omega
  have hscan : scanLine .start 1 (o.text ++ b) =
      .ok (Scanner.after [0] [] (scanFrom 1 (o.text ++ b) 0 0 (c :: rest))) := by
    have hlead : (o.text ++ b).takeWhile isSpacing = [] := by
      rw [hline, List.takeWhile_cons_of_neg (by simp [hspace])]
    have hdrop : (o.text ++ b).drop (List.length ([] : Text)) = c :: rest := hline
    simp only [scanLine, Scanner.start, scanFresh, hlead, hdrop, hcode]
    rfl
  have hrest : (o.text ++ b).drop o.text.length = b := List.drop_left
  rw [hscan, scanFrom, if_neg (by simp [hspace]), hlex, stringLexeme, hrest]
  unfold EndsInLine
  cases hclose : closingLength? o.quote b with
  | none =>
    simp only
    rw [if_pos (Or.inl (quote_of_opening ho).1)]
    exact ⟨_, _, rfl, rfl, rfl, rfl, rfl, hline.symm⟩
  | some n =>
    have hmore : o.text.length + n = o.text.length + n - 1 + 1 := by omega
    have htext : c :: rest.take (o.text.length + n - 1) = o.text ++ b.take n := by
      rw [← List.take_succ_cons, ← hmore, ← hline, List.take_length_add_append]
    dsimp only
    refine ⟨_, _, _, rfl, rfl, htext, ?_⟩
    intro hn
    have hnil : rest.drop (o.text.length + n - 1) = [] := by
      apply List.drop_of_length_le
      have hall := congrArg List.length hline
      rw [List.length_append, List.length_cons] at hall
      omega
    rw [hnil, scanFrom]
    exact ⟨rfl, rfl, rfl, rfl⟩

private theorem endsString_opening (ho : o ∈ Opening.all) (body : Text) :
    EndsString (scanLines .start 1 (Text.rawLines (o.text ++ body))) o.text o.quote body := by
  obtain ⟨hlength, hquote⟩ := quote_of_opening ho
  have hquoteNe : o.quote ≠ [] := by
    intro hnil
    simp [hnil] at hlength
  have htext : '\n' ∉ o.text := by
    have hall : ∀ o ∈ Opening.all, '\n' ∉ o.text := by decide
    exact hall o ho
  have htextNe : o.text ≠ [] := by simp [Opening.text, hquoteNe]
  rcases Text.newline_split body with hbody | ⟨b, t, rfl, hb⟩
  · have hlines : Text.rawLines (o.text ++ body) = [o.text ++ body] :=
      Text.rawLines_of_not_mem (by simp [htextNe]) (by simp [htext, hbody])
    have hends : EndsString (scanLines .start 1 [o.text ++ body]) o.text o.quote
        (body ++ List.flatten []) :=
      endsString_cons hquote hquoteNe (endsInLine_opening ho body) (by simp) (Or.inl rfl)
        fun st p _ _ hp _ => ⟨st, rfl, by simp [hp]⟩
    rw [hlines]
    simpa using hends
  · have hlines : Text.rawLines (o.text ++ (b ++ '\n' :: t)) =
        (o.text ++ (b ++ ['\n'])) :: Text.rawLines t := by
      rw [← List.append_assoc, Text.rawLines_append_newline (by simp [htext, hb])]
      simp
    have hnil : Text.rawLines t = [] ∨ (Text.rawLines t).flatten ≠ [] := by
      by_cases ht : t = []
      · exact Or.inl (by rw [ht]; rfl)
      · exact Or.inr (by rw [Text.flatten_rawLines]; exact ht)
    have hends : EndsString
        (scanLines .start 1 ((o.text ++ (b ++ ['\n'])) :: Text.rawLines t)) o.text o.quote
        (b ++ ['\n'] ++ (Text.rawLines t).flatten) := by
      refine endsString_cons hquote hquoteNe (endsInLine_opening ho (b ++ ['\n'])) (by simp) hnil ?_
      intro st p hdepth hcontinued hp hsame
      rw [← hsame] at hlength hquote ⊢
      exact endsString_scanLines hp hdepth hcontinued hlength hquote (rows_rawLines t)
    rw [hlines]
    rw [Text.flatten_rawLines] at hends
    simpa using hends

private theorem text_of_mem_closingTokens {tokens : List Token} {st : Scanner} {rows : Nat}
    {lastLine : Text} {t : Token} (h : t ∈ closingTokens tokens st rows lastLine) :
    t.text = [] := by
  simp only [closingTokens, List.mem_append, List.mem_map, List.mem_singleton] at h
  rcases h with (h | ⟨_, -, rfl⟩) | rfl
  · split at h
    · rw [List.mem_singleton.mp h]
    · cases h
  · rfl
  · rfl

/-- A text that opens like a docstring is one string exactly if it ends with the first quote that
closes it. -/
theorem isString_iff (ho : o ∈ Opening.all) (body : Text) :
    IsString (o.text ++ body) ↔ closingLength? o.quote body = some body.length := by
  have hends := endsString_opening ho body
  unfold EndsString at hends
  constructor
  · rintro ⟨t, rest, htokens, -, htext, -⟩
    obtain ⟨scanned, st, hscan, -, -, hpending, hclosing⟩ := tokenize_eq_ok htokens
    cases hclose : closingLength? o.quote body with
    | none =>
      rw [hclose] at hends
      obtain ⟨st', hscan', hopen⟩ := hends
      cases hscan.symm.trans hscan'
      exact absurd hpending hopen
    | some n =>
      rw [hclose] at hends
      obtain ⟨u, us, rfl, -, hu⟩ := hends.1 scanned st hscan
      have hfirst : t = u := (List.cons.inj hclosing).1
      rw [hfirst, hu] at htext
      have htake : body.take n = body := List.append_cancel_left htext
      obtain ⟨inner, after, hbody, hn⟩ := closingLength?_eq_some hclose
      have hle : n ≤ body.length := by
        rw [hbody, hn]
        simp
      have hall := congrArg List.length htake
      rw [List.length_take] at hall
      congr 1
      omega
  · intro hclose
    rw [hclose] at hends
    obtain ⟨t, st, hscan, hkind, htext, hdepth, hcontinued, hpending⟩ := hends.2 rfl
    refine ⟨t, closingTokens [t] st (Text.rawLines (o.text ++ body)).length
      ((Text.rawLines (o.text ++ body)).getLast?.getD []), ?_, hkind, htext,
      fun u hu => text_of_mem_closingTokens hu⟩
    simp [tokenize, hscan, bind, Except.bind, hpending, hdepth, hcontinued]

end Literals

end DocstringFormat.Source
