import DocstringFormat.Proofs.Source.Place

/-!
What a lexeme is made of.

`Lexical` says for each kind of token which texts it can have, as far as line feeds and
backslashes go: only a string can go on in the next row, and only a comment can end in a backslash
right before a line feed.  `lexical_lexeme` shows it of every token that starts on a row.
-/

set_option autoImplicit false

namespace DocstringFormat.Source

/-- The characters that open and close strings. -/
def IsQuote (c : Char) : Prop :=
  c = '"' ∨ c = '\''

/-- A text that is no token of the language: it ends in a row without hiding the line feed, takes
the line feed with it, or is the end of the source. -/
def IsStray (text rest : Text) : Prop :=
  ('\n' ∉ text ∧ (text.getLast? = some '\\' → rest.head? ≠ some '\n')) ∨
    (text.getLast? = some '\n' ∧ ¬ ['\\', '\n'] <:+ text ∧ 1 < text.length) ∨
    (text.getLast? ≠ some '\n' ∧ rest = [])

def Lexical (kind : TokenKind) (text rest : Text) : Prop :=
  text ≠ [] ∧
    match kind with
    | .comment => text.head? = some '#' ∧ '\n' ∉ text
    | .string => ∃ q, text.getLast? = some q ∧ IsQuote q
    | .errorToken => IsStray text rest
    | .name | .number | .op => '\n' ∉ text ∧ text.getLast? ≠ some '\\'
    | _ => False

def IsOpeningQuote (quote : Text) : Prop :=
  ∃ q, IsQuote q ∧ (quote = [q] ∨ quote = [q, q, q])

theorem IsOpeningQuote.ne_nil {quote : Text} (h : IsOpeningQuote quote) : quote ≠ [] := by
  obtain ⟨q, -, rfl | rfl⟩ := h <;> simp

theorem IsOpeningQuote.getLast? {quote : Text} (h : IsOpeningQuote quote) :
    ∃ q, List.getLast? quote = some q ∧ IsQuote q := by
  obtain ⟨q, hq, rfl | rfl⟩ := h <;> exact ⟨q, by simp, hq⟩

theorem IsQuote.ne_newline {q : Char} (h : IsQuote q) : q ≠ '\n' := by
  rcases h with rfl | rfl <;> decide

theorem IsQuote.ne_backslash {q : Char} (h : IsQuote q) : q ≠ '\\' := by
  rcases h with rfl | rfl <;> decide

section Strings

private theorem leadingQuote?_eq_some {s quote : Text} (h : leadingQuote? s = some quote) :
    IsOpeningQuote quote ∧ quote <+: s := by
  unfold leadingQuote? at h
  split at h
  · cases h
    exact ⟨⟨'"', Or.inl rfl, Or.inr rfl⟩, by simp⟩
  · cases h
    exact ⟨⟨'\'', Or.inr rfl, Or.inr rfl⟩, by simp⟩
  · cases h
    exact ⟨⟨'"', Or.inl rfl, Or.inl rfl⟩, by simp⟩
  · cases h
    exact ⟨⟨'\'', Or.inr rfl, Or.inl rfl⟩, by simp⟩
  · cases h

private theorem leadingMark_prefix_self (s : Text) : leadingMark s <+: s := by
  unfold leadingMark
  cases h : stringMarks.find? fun mark =>
      mark.isPrefixOf s && startsWithQuote (s.drop mark.length) with
  | none => simp
  | some mark =>
    have hmark := List.find?_some h
    simp only [Bool.and_eq_true, List.isPrefixOf_iff_prefix] at hmark
    exact hmark.1

theorem stringOpening?_eq_some {s quote : Text} {n : Nat} (h : stringOpening? s = some (n, quote)) :
    IsOpeningQuote quote ∧
      ∃ rest, s = leadingMark s ++ quote ++ rest ∧ n = (leadingMark s ++ quote).length := by
  simp only [stringOpening?, Option.map_eq_some_iff, Prod.mk.injEq] at h
  obtain ⟨q, hq, hn, rfl⟩ := h
  obtain ⟨hopening, rest, hrest⟩ := leadingQuote?_eq_some hq
  obtain ⟨tail, htail⟩ := leadingMark_prefix_self s
  have hdrop : s.drop (leadingMark s).length = tail := by
    have h := congrArg (List.drop (leadingMark s).length) htail
    simpa using h.symm
  refine ⟨hopening, rest, ?_, by simp [← hn]⟩
  rw [List.append_assoc, hrest, hdrop, htail]

theorem closingLength?_eq_some {quote s : Text} {n : Nat} (h : closingLength? quote s = some n) :
    ∃ body rest, s = body ++ quote ++ rest ∧ n = (body ++ quote).length := by
  fun_induction closingLength? quote s generalizing n with
  | case1 => cases h
  | case2 => cases h
  | case3 d rest ih =>
    obtain ⟨m, hm, rfl⟩ := Option.map_eq_some_iff.mp h
    obtain ⟨body, tail, hs, hlen⟩ := ih hm
    refine ⟨'\\' :: d :: body, tail, by rw [hs]; simp, ?_⟩
    rw [hlen]
    simp
  | case4 c rest hne hnb hquote =>
    cases h
    obtain ⟨tail, htail⟩ := List.isPrefixOf_iff_prefix.mp hquote
    exact ⟨[], tail, by simp [htail], by simp⟩
  | case5 c rest hne hnb hquote ih =>
    obtain ⟨m, hm, rfl⟩ := Option.map_eq_some_iff.mp h
    obtain ⟨body, tail, hs, hlen⟩ := ih hm
    refine ⟨c :: body, tail, by rw [hs]; simp, ?_⟩
    rw [hlen]
    simp

end Strings

section Classes

private theorem continuesNumber_plain {hex : Bool} {previous c : Char}
    (h : continuesNumber hex previous c = true) : c ≠ '\n' ∧ c ≠ '\\' := by
  constructor
  · rintro rfl
    revert h
    simp [continuesNumber]
  · rintro rfl
    revert h
    simp [continuesNumber]

private theorem take_numberTail_plain (hex : Bool) (previous : Char) (s : Text) :
    ∀ c ∈ s.take (numberTail hex previous s), c ≠ '\n' ∧ c ≠ '\\' := by
  fun_induction numberTail hex previous s with
  | case1 => simp
  | case2 previous c rest hc ih =>
    intro d hd
    rw [List.take_succ_cons] at hd
    rcases List.mem_cons.mp hd with rfl | hd
    · exact continuesNumber_plain hc
    · exact ih d hd
  | case3 previous c rest hc => simp

private theorem startsNumber_plain {c : Char} {rest : Text} (h : startsNumber c rest = true) :
    c ≠ '\n' ∧ c ≠ '\\' := by
  constructor
  · rintro rfl
    revert h
    simp [startsNumber]
  · rintro rfl
    revert h
    simp [startsNumber]

private theorem continuesName_plain {c : Char} (h : continuesName c = true) :
    c ≠ '\n' ∧ c ≠ '\\' := by
  constructor
  · rintro rfl
    exact absurd h (by decide)
  · rintro rfl
    exact absurd h (by decide)

private theorem startsName_plain {c : Char} (h : startsName c = true) : c ≠ '\n' ∧ c ≠ '\\' := by
  constructor
  · rintro rfl
    exact absurd h (by decide)
  · rintro rfl
    exact absurd h (by decide)

private theorem operators_plain :
    ∀ o ∈ operators3 ++ operators2 ++ operators1.map fun c => [c],
      ∀ c ∈ o, c ≠ '\n' ∧ c ≠ '\\' := by
  have hall : ∀ o ∈ operators3 ++ operators2 ++ operators1.map fun c => [c],
      o.all (fun c => c ≠ '\n' ∧ c ≠ '\\') = true := by
    decide
  intro o ho c hc
  simpa using List.all_eq_true.mp (hall o ho) c hc

private theorem take_operatorLength_plain {s : Text} {n : Nat} (h : operatorLength s = n) :
    ∀ c ∈ s.take n, c ≠ '\n' ∧ c ≠ '\\' := by
  unfold operatorLength at h
  have hlen3 : ∀ o ∈ operators3, o.length = 3 := by decide
  have hlen2 : ∀ o ∈ operators2, o.length = 2 := by decide
  have hlead : ∀ o : Text, o.isPrefixOf s = true → s.take o.length = o := by
    intro o ho
    obtain ⟨t, rfl⟩ := List.isPrefixOf_iff_prefix.mp ho
    simp
  split at h
  · rename_i hop
    obtain ⟨o, ho, hos⟩ := List.any_eq_true.mp hop
    rw [← h, ← hlen3 o ho, hlead o hos]
    exact operators_plain o (by simp [ho])
  · split at h
    · rename_i hop
      obtain ⟨o, ho, hos⟩ := List.any_eq_true.mp hop
      rw [← h, ← hlen2 o ho, hlead o hos]
      exact operators_plain o (by simp [ho])
    · split at h
      · rename_i c rest _ _
        split at h
        · rename_i hc
          rw [← h]
          exact operators_plain [c] (by simp [hc])
        · rw [← h]
          simp
      · rw [← h]
        simp

end Classes

section Rows

theorem newline_not_mem_of_isRow {y z after : Text} (h : IsRow (y ++ z) after)
    (hlast : y.getLast? ≠ some '\n') : '\n' ∉ y := by
  intro hy
  rcases h with ⟨hrow, -⟩ | ⟨u, hu, hmem⟩
  · exact hrow (List.mem_append_left z hy)
  · rcases List.eq_nil_or_concat' z with rfl | ⟨w, d, rfl⟩
    · rw [List.append_nil] at hu
      rw [hu] at hlast
      simp at hlast
    · rw [← List.append_assoc] at hu
      have hinit := (List.append_inj' hu rfl).1
      rw [← hinit] at hmem
      exact hmem (List.mem_append_left w hy)

private theorem lexical_plain {kind : TokenKind} {c : Char} {s : Text} (rest : Text)
    (hkind : kind = .name ∨ kind = .number ∨ kind = .op) (hc : c ≠ '\n' ∧ c ≠ '\\')
    (hs : ∀ d ∈ s, d ≠ '\n' ∧ d ≠ '\\') : Lexical kind (c :: s) rest ∧ '\n' ∉ c :: s := by
  have hall : ∀ d ∈ c :: s, d ≠ '\n' ∧ d ≠ '\\' := by
    intro d hd
    rcases List.mem_cons.mp hd with rfl | hd
    · exact hc
    · exact hs d hd
  have hnewline : '\n' ∉ c :: s := fun h => (hall '\n' h).1 rfl
  have hlast : (c :: s).getLast? ≠ some '\\' := fun h =>
    (hall '\\' (List.mem_of_getLast? h)).2 rfl
  refine ⟨⟨by simp, ?_⟩, hnewline⟩
  rcases hkind with rfl | rfl | rfl <;> exact ⟨hnewline, hlast⟩

private theorem lexical_comment {rest after : Text} (hrow : IsRow ('#' :: rest) after)
    (following : Text) :
    Lexical .comment ('#' :: rest.take (Text.dropLineEnding rest).length) following ∧
      '\n' ∉ '#' :: rest.take (Text.dropLineEnding rest).length := by
  obtain ⟨tail, htail⟩ := Text.dropEndWhile_isPrefix (fun c => c == '\r' || c == '\n') rest
  have htake : rest.take (Text.dropLineEnding rest).length = Text.dropLineEnding rest :=
    (List.prefix_iff_eq_take.mp ⟨tail, htail⟩).symm
  rw [htake]
  have hrest : '#' :: rest = ('#' :: Text.dropLineEnding rest) ++ tail := by
    rw [List.cons_append]
    exact congrArg _ htail.symm
  have hlast : ('#' :: Text.dropLineEnding rest).getLast? ≠ some '\n' := by
    intro h
    rcases List.eq_nil_or_concat' (Text.dropLineEnding rest) with hnil | ⟨u, d, hd⟩
    · rw [hnil] at h
      cases h
    · have hdrop := Text.getLast?_dropEndWhile (p := fun c => c == '\r' || c == '\n') (s := rest)
        (c := d) (by rw [← Text.dropLineEnding, hd]; simp)
      rw [hd, ← List.cons_append, List.getLast?_concat] at h
      have hnewline : d = '\n' := Option.some.inj h
      subst hnewline
      simp at hdrop
  have hmem : '\n' ∉ '#' :: Text.dropLineEnding rest := by
    rw [hrest] at hrow
    exact newline_not_mem_of_isRow hrow hlast
  exact ⟨⟨by simp, rfl, hmem⟩, hmem⟩

private theorem lexical_stringLexeme {s quote after : Text} {opening more : Nat} {kind : TokenKind}
    (hrow : IsRow s after) (hopening : stringOpening? s = some (opening, quote))
    (h : stringLexeme s opening quote = .token kind more) :
    Lexical kind (s.take (more + 1)) (s.drop (more + 1) ++ after) ∧ '\n' ∉ s.take (more + 1) := by
  obtain ⟨hquote, rest, hs, hlen⟩ := stringOpening?_eq_some hopening
  obtain ⟨q, hq, hqq⟩ := hquote.getLast?
  have hpos : 0 < quote.length := List.length_pos_iff.mpr hquote.ne_nil
  have hdrop : s.drop opening = rest := by
    have h := congrArg (List.drop opening) hs
    rw [h, hlen, List.drop_left]
  -- Both a whole string and a stray opening end in a quote.
  have hends : ∀ text, (∃ u, text = u ++ quote) → text <+: s → text.getLast? = some q ∧
      '\n' ∉ text := by
    rintro text ⟨u, rfl⟩ ⟨z, hz⟩
    have hlast : (u ++ quote).getLast? = some q := by
      rw [List.getLast?_append, hq]
      rfl
    refine ⟨hlast, newline_not_mem_of_isRow (z := z) (by rwa [hz]) ?_⟩
    rw [hlast]
    simpa using hqq.ne_newline
  unfold stringLexeme at h
  split at h
  · rename_i n hn
    obtain ⟨body, tail, hbody, hnlen⟩ := closingLength?_eq_some hn
    cases h
    have hmore : opening + n - 1 + 1 = opening + n := by
      rw [hlen, List.length_append]
      omega
    have htext : s.take (opening + n) = (leadingMark s ++ quote ++ body) ++ quote := by
      have hsplit : s = (leadingMark s ++ quote ++ (body ++ quote)) ++ tail := by
        rw [List.append_assoc, ← hbody, hdrop]
        exact hs
      have h := congrArg (List.take (opening + n)) hsplit
      rw [h, hlen, hnlen, ← List.length_append, List.take_left]
      simp
    rw [hmore]
    obtain ⟨hlast, hmem⟩ := hends _ ⟨_, htext⟩ (List.take_prefix _ s)
    refine ⟨⟨?_, q, hlast, hqq⟩, hmem⟩
    intro hnil
    rw [hnil] at hlast
    cases hlast
  · split at h
    · cases h
    · cases h
      have hmore : opening - 1 + 1 = opening := by
        rw [hlen, List.length_append]
        omega
      have htext : s.take opening = leadingMark s ++ quote := by
        have h := congrArg (List.take opening) hs
        rw [h, hlen, List.take_left]
      rw [hmore]
      obtain ⟨hlast, hmem⟩ := hends _ ⟨_, htext⟩ (List.take_prefix _ s)
      refine ⟨⟨?_, Or.inl ⟨hmem, fun hback => ?_⟩⟩, hmem⟩
      · intro hnil
        rw [hnil] at hlast
        cases hlast
      · rw [hlast] at hback
        exact absurd (Option.some.inj hback) hqq.ne_backslash

private theorem startsWithBreak_of_head {c : Char} {rest after : Text}
    (hrow : IsRow (c :: rest) after) (hc : c ≠ '\n')
    (h : (rest.drop 0 ++ after).head? = some '\n') : startsWithBreak rest = true := by
  cases rest with
  | nil =>
    rcases hrow with ⟨-, rfl⟩ | ⟨u, hu, -⟩
    · simp at h
    · rcases List.eq_nil_or_concat' u with rfl | ⟨v, d, rfl⟩
      · simp only [List.nil_append, List.cons.injEq, and_true] at hu
        exact absurd hu hc
      · have hlen := congrArg List.length hu
        simp only [List.length_append, List.length_cons, List.length_nil] at hlen
        omega
  | cons d rest =>
    have hd : d = '\n' := by simpa using h
    subst hd
    rfl

theorem lexical_lexeme {c : Char} {rest after : Text} {kind : TokenKind} {more : Nat}
    (hrow : IsRow (c :: rest) after) (h : lexeme c rest = .token kind more) :
    Lexical kind (c :: rest.take more) (rest.drop more ++ after) ∧
      '\n' ∉ c :: rest.take more := by
  unfold lexeme at h
  split at h
  · cases h
  · rename_i hbreak
    split at h
    · rename_i hhash
      cases h
      subst hhash
      exact lexical_comment hrow _
    · split at h
      · cases h
      · rename_i hjoin
        split at h
        · rename_i hnumber
          cases h
          exact lexical_plain _ (by simp) (startsNumber_plain hnumber) (take_numberTail_plain _ _ _)
        · split at h
          · rename_i opening quote hopening
            have hstring := lexical_stringLexeme hrow hopening h
            simpa using hstring
          · split at h
            · rename_i hname
              cases h
              refine lexical_plain _ (by simp) (startsName_plain hname) ?_
              intro d hd
              rw [← List.prefix_iff_eq_take.mp (List.takeWhile_prefix _)] at hd
              exact continuesName_plain (List.all_eq_true.mp List.all_takeWhile d hd)
            · split at h
              · cases h
                have hc : '\n' ∉ [c] := by
                  simpa using fun h => hbreak (Or.inl h.symm)
                refine ⟨⟨by simp, Or.inl ⟨hc, ?_⟩⟩, hc⟩
                intro hlast hhead
                have hback : c = '\\' := by simpa using hlast
                exact hjoin ⟨hback, startsWithBreak_of_head hrow (fun h => hbreak (Or.inl h)) hhead⟩
              · rename_i n hn
                cases h
                have hop := take_operatorLength_plain hn
                rw [List.take_succ_cons] at hop
                exact lexical_plain _ (by simp) (hop c (by simp))
                  fun d hd => hop d (List.mem_cons_of_mem _ hd)

theorem lexeme_eq_lineEnd {c : Char} {rest : Text} (h : lexeme c rest = .lineEnd) :
    c = '\n' ∨ c = '\r' := by
  by_contra hne
  simp only [lexeme, if_neg hne, stringLexeme] at h
  split at h
  · cases h
  · split at h
    · cases h
    · split at h
      · cases h
      · split at h
        · split at h
          · cases h
          · split at h <;> cases h
        · split at h
          · cases h
          · split at h <;> cases h

theorem lexeme_eq_continuation {c : Char} {rest : Text} (h : lexeme c rest = .continuation) :
    c = '\\' ∧ startsWithBreak rest = true := by
  by_contra hne
  simp only [lexeme, if_neg hne, stringLexeme] at h
  split at h
  · cases h
  · split at h
    · cases h
    · split at h
      · cases h
      · split at h
        · split at h
          · cases h
          · split at h <;> cases h
        · split at h
          · cases h
          · split at h <;> cases h

theorem lexeme_eq_stringLexeme {c : Char} {rest : Text}
    (h : (∃ more, lexeme c rest = .token .string more) ∨ ∃ quote, lexeme c rest = .openString quote) :
    ∃ n q, stringOpening? (c :: rest) = some (n, q) ∧
      lexeme c rest = stringLexeme (c :: rest) n q := by
  unfold lexeme at h ⊢
  split at h
  · rcases h with ⟨_, h⟩ | ⟨_, h⟩ <;> cases h
  · rename_i hbreak
    rw [if_neg hbreak]
    split at h
    · rcases h with ⟨_, h⟩ | ⟨_, h⟩ <;> cases h
    · rename_i hhash
      rw [if_neg hhash]
      split at h
      · rcases h with ⟨_, h⟩ | ⟨_, h⟩ <;> cases h
      · rename_i hjoin
        rw [if_neg hjoin]
        split at h
        · rcases h with ⟨_, h⟩ | ⟨_, h⟩ <;> cases h
        · rename_i hnumber
          rw [if_neg hnumber]
          cases hopening : stringOpening? (c :: rest) with
          | some opening => exact ⟨opening.1, opening.2, rfl, rfl⟩
          | none =>
            rw [hopening] at h
            simp only at h
            split at h
            · rcases h with ⟨_, h⟩ | ⟨_, h⟩ <;> cases h
            · split at h <;> rcases h with ⟨_, h⟩ | ⟨_, h⟩ <;> cases h

theorem lexeme_eq_openString {c : Char} {rest quote : Text} (h : lexeme c rest = .openString quote) :
    ∃ n, stringOpening? (c :: rest) = some (n, quote) ∧
      closingLength? quote ((c :: rest).drop n) = none := by
  obtain ⟨n, q, hopening, hlexeme⟩ := lexeme_eq_stringLexeme (Or.inr ⟨quote, h⟩)
  rw [h, stringLexeme] at hlexeme
  split at hlexeme
  · cases hlexeme
  · rename_i hclose
    split at hlexeme
    · cases hlexeme
      exact ⟨n, hopening, hclose⟩
    · cases hlexeme

end Rows

end DocstringFormat.Source
