import DocstringFormat.Proofs.Docstring.Layout
import DocstringFormat.Proofs.Source.RowTokens
import DocstringFormat.Proofs.Source.Splice

/-!
Revised sources.

A revision keeps, drops or replaces each token of a source.  `Revises` says that it drops only blank
lines and replaces only docstrings.  Then a row is kept as a whole unless it is
a blank line that is dropped (`Revises.keeps_codeless_row`) or begins with a docstring that is
replaced (`Revises.keeps_code_row`).
-/

set_option autoImplicit false

namespace DocstringFormat.Source

open Docstring (Opening)

section Revisions

inductive Revision where
  | keep
  | drop
  | replace (text : Text)

def Revision.textOf (p : Piece) : Revision → Text
  | .keep => p.text
  | .drop => []
  | .replace text => p.gap ++ text

def revisedText (ρ : Nat → Revision) : Nat → List Piece → Text
  | _, [] => []
  | i, p :: ps => (ρ i).textOf p ++ revisedText ρ (i + 1) ps

structure Token.Kept (t u : Token) : Prop where
  kind : u.kind = t.kind
  text : u.text = t.text
  line : t.Moved u ∨ t.kind ∈ [TokenKind.indent, .comment, .newline] ∧
    Text.includes Docstring.tripleDouble u.line = true

structure Token.Replaced (new : Text) (t u : Token) : Prop where
  kind : t.kind = .string ∧ u.kind = .string
  text : u.text = new
  line : ∃ lead rest, (∀ c ∈ lead, isSpacing c = true) ∧ t.line = lead ++ (t.text ++ rest) ∧
    u.line = lead ++ (new ++ rest)

inductive Revised (ρ : Nat → Revision) : Nat → List Token → List Token → Prop
  | nil {i : Nat} : Revised ρ i [] []
  | keep {i : Nat} {t u : Token} {ts us : List Token} :
      ρ i = .keep → t.Kept u → Revised ρ (i + 1) ts us → Revised ρ i (t :: ts) (u :: us)
  | drop {i : Nat} {t : Token} {ts us : List Token} :
      ρ i = .drop → Revised ρ (i + 1) ts us → Revised ρ i (t :: ts) us
  | replace {i : Nat} {text : Text} {t u : Token} {ts us : List Token} :
      ρ i = .replace text → t.Replaced text u → Revised ρ (i + 1) ts us →
      Revised ρ i (t :: ts) (u :: us)

/-- A complete literal in three double quotes. -/
def IsTripleQuoted (text : Text) : Prop :=
  ∃ o ∈ Opening.all, ∃ body, o.quote = Docstring.tripleDouble ∧ text = o.text ++ body ∧
    closingLength? o.quote body = some body.length

/-- The token with a number is a literal that begins its row outside all brackets and ends its
statement. -/
def IsDocstringAt (tokens : List Token) (index : Nat) : Prop :=
  ∃ pre t post, tokens = pre ++ t :: post ∧ pre.length = index ∧ t.kind = .string ∧
    Docstring.isLiteral t.text = true ∧ depthOf pre = 0 ∧ OpensRow pre ∧ endsStatement post = true

/-- Only blank lines are dropped, and only docstrings are replaced. -/
structure Revises (ρ : Nat → Revision) (tokens : List Token) : Prop where
  drop : ∀ i, ρ i = .drop → IsBlankAt tokens i
  replace : ∀ i text, ρ i = .replace text → IsDocstringAt tokens i

structure RevisesSoundly (ρ : Nat → Revision) (tokens : List Token) : Prop
    extends Revises ρ tokens where
  literal : ∀ i text, ρ i = .replace text → IsTripleQuoted text

variable {ρ : Nat → Revision} {tokens pre post ts us : List Token} {t : Token} {i : Nat}

theorem IsDocstringAt.of_split (h : IsDocstringAt tokens pre.length)
    (htokens : tokens = pre ++ t :: post) :
    t.kind = .string ∧ Docstring.isLiteral t.text = true ∧ depthOf pre = 0 ∧ OpensRow pre ∧
      endsStatement post = true := by
  obtain ⟨pre', t', post', htokens', hlength, hfacts⟩ := h
  obtain ⟨rfl, hrest⟩ := List.append_inj (htokens'.symm.trans htokens) hlength
  obtain ⟨rfl, rfl⟩ := List.cons.inj hrest
  exact hfacts

private theorem Revises.keep_of_split (h : Revises ρ tokens) (htokens : tokens = pre ++ t :: post)
    (hblank : t.kind = .nl → depthOf pre = 0 → t.line.isBlank = false)
    (hstring : t.kind = .string → depthOf pre = 0 → OpensRow pre →
      ∀ text, ρ pre.length ≠ .replace text) : ρ pre.length = .keep := by
  cases hρ : ρ pre.length with
  | keep => rfl
  | drop =>
    exfalso
    obtain ⟨hline, hdepth⟩ := (h.drop _ hρ).of_split htokens
    simp only [Token.isBlankLine, Bool.and_eq_true, beq_iff_eq] at hline
    rw [hblank hline.1 hdepth] at hline
    cases hline.2
  | replace text =>
    exfalso
    obtain ⟨hkind, -, hdepth, hopens, -⟩ := (h.replace _ text hρ).of_split htokens
    exact hstring hkind hdepth hopens text hρ

theorem Revised.append {ts' us' : List Token} (h : Revised ρ i ts us)
    (h' : Revised ρ (i + ts.length) ts' us') : Revised ρ i (ts ++ ts') (us ++ us') := by
  induction h with
  | nil => exact h'
  | keep hρ hkept _ ih =>
    refine .keep hρ hkept (ih ?_)
    rwa [List.length_cons, Nat.add_comm _ 1, ← Nat.add_assoc] at h'
  | drop hρ _ ih =>
    refine .drop hρ (ih ?_)
    rwa [List.length_cons, Nat.add_comm _ 1, ← Nat.add_assoc] at h'
  | replace hρ hreplaced _ ih =>
    refine .replace hρ hreplaced (ih ?_)
    rwa [List.length_cons, Nat.add_comm _ 1, ← Nat.add_assoc] at h'

def Keeps (ρ : Nat → Revision) (i n : Nat) : Prop :=
  ∀ j < n, ρ (i + j) = .keep

theorem Keeps.tail {n : Nat} (h : Keeps ρ i (n + 1)) : ρ i = .keep ∧ Keeps ρ (i + 1) n := by
  refine ⟨h 0 (Nat.succ_pos n), fun j hj => ?_⟩
  rw [Nat.add_assoc, Nat.add_comm 1]
  exact h (j + 1) (by omega)

theorem Keeps.append {n m : Nat} (h : Keeps ρ i n) (h' : Keeps ρ (i + n) m) :
    Keeps ρ i (n + m) := by
  intro j hj
  by_cases hlt : j < n
  · exact h j hlt
  · have hkeep := h' (j - n) (by omega)
    rwa [Nat.add_assoc, Nat.add_sub_cancel' (Nat.le_of_not_lt hlt)] at hkeep

theorem Keeps.revised (h : Keeps ρ i ts.length) (hkept : List.Forall₂ Token.Kept ts us) :
    Revised ρ i ts us := by
  induction hkept generalizing i with
  | nil => exact .nil
  | cons hfirst _ ih =>
    obtain ⟨hi, hrest⟩ := Keeps.tail h
    exact .keep hi hfirst (ih hrest)

theorem Keeps.revisedText {ps : List Piece} (h : Keeps ρ i ps.length) :
    revisedText ρ i ps = spell ps := by
  induction ps generalizing i with
  | nil => rfl
  | cons p ps ih =>
    obtain ⟨hi, hrest⟩ := Keeps.tail h
    rw [Source.revisedText, hi, ih hrest]
    rfl

theorem revisedText_append (ps qs : List Piece) :
    revisedText ρ i (ps ++ qs) = revisedText ρ i ps ++ revisedText ρ (i + ps.length) qs := by
  induction ps generalizing i with
  | nil => rfl
  | cons p ps ih =>
    rw [List.cons_append, revisedText, revisedText, ih, List.append_assoc, List.length_cons,
      Nat.add_assoc, Nat.add_comm 1]

theorem Revises.keeps (h : Revises ρ tokens) (htokens : tokens = pre ++ ts ++ post)
    (hblank : ∀ a t b, ts = a ++ t :: b → t.kind = .nl → depthOf (pre ++ a) = 0 →
      t.line.isBlank = false)
    (hstring : ∀ a t b, ts = a ++ t :: b → t.kind = .string → depthOf (pre ++ a) = 0 →
      OpensRow (pre ++ a) → ∀ text, ρ (pre ++ a).length ≠ .replace text) :
    Keeps ρ pre.length ts.length := by
  intro j hj
  have hsplit : ts = ts.take j ++ ts[j] :: ts.drop (j + 1) := by
    rw [← List.drop_eq_getElem_cons hj, List.take_append_drop]
  have hindex : (pre ++ ts.take j).length = pre.length + j := by
    rw [List.length_append, List.length_take, Nat.min_eq_left (Nat.le_of_lt hj)]
  have hwhole : tokens = pre ++ ts.take j ++ ts[j] :: (ts.drop (j + 1) ++ post) := by
    calc tokens = pre ++ ts ++ post := htokens
      _ = pre ++ (ts.take j ++ ts[j] :: ts.drop (j + 1)) ++ post := by rw [← hsplit]
      _ = pre ++ ts.take j ++ ts[j] :: (ts.drop (j + 1) ++ post) := by
        simp only [List.append_assoc, List.cons_append]
  rw [← hindex]
  exact h.keep_of_split hwhole (hblank _ _ _ hsplit) (hstring _ _ _ hsplit)

theorem Token.Moved.kept {t u : Token} (h : t.Moved u) : t.Kept u :=
  ⟨h.kind, h.text, Or.inl h⟩

end Revisions

section Rows

variable {ρ : Nat → Revision} {tokens pre post : List Token} {depth : Nat} {l : LineScan}

theorem IsDocstringAt.opens (h : IsDocstringAt tokens pre.length) (htokens : tokens = pre ++ post) :
    depthOf pre = 0 ∧ OpensRow pre := by
  obtain ⟨pre', t, post', htokens', hlength, -, -, hdepth, hopens, -⟩ := h
  obtain ⟨rfl, -⟩ := List.append_inj (htokens'.symm.trans htokens) hlength
  exact ⟨hdepth, hopens⟩

theorem depthOf_append_eq (ts us : List Token) :
    depthOf (ts ++ us) = us.foldl Token.depthAfter (depthOf ts) := by
  rw [depthOf, List.foldl_append]
  rfl

theorem Revises.keeps_scan (h : Revises ρ tokens) (hrow : RowTokens depth l)
    (htokens : tokens = pre ++ l.tokens ++ post) (hdepth : depthOf pre = depth)
    (hfirst : ∀ text, ρ pre.length ≠ .replace text) :
    Keeps ρ pre.length l.tokens.length ∧
      (l.pending ≠ none → ∀ text, ρ (pre ++ l.tokens).length ≠ .replace text) := by
  refine ⟨h.keeps htokens ?_ ?_, ?_⟩
  · intro a t b hsplit hkind hzero
    have hpos := hrow.nl a t b hsplit hkind
    rw [depthOf_append_eq, hdepth] at hzero
    omega
  · intro a t b hsplit hkind _ hopens text
    by_cases ha : a = []
    · rw [ha, List.append_nil]
      exact hfirst text
    · rw [opensRow_append pre ha] at hopens
      exact absurd hopens (hrow.string a t b hsplit hkind ha)
  · intro hpending text hreplace
    by_cases hnil : l.tokens = []
    · rw [hnil, List.append_nil] at hreplace
      exact hfirst text hreplace
    · have hopens := ((h.replace _ text hreplace).opens htokens).2
      rw [opensRow_append pre hnil] at hopens
      exact hrow.pending hpending hnil hopens

theorem kind_of_mem_moves {row : Nat} {lead line : Text} {indents indents' : List Nat}
    {moves : List Token}
    (h : adjustIndents indents row lead line = .ok (indents', moves)) :
    moves = [tokenAt .indent lead row 0 line] ∨ ∀ t ∈ moves, t.kind = .dedent := by
  simp only [adjustIndents] at h
  split at h
  · cases h
    exact Or.inl rfl
  · right
    split at h
    · split at h
      · cases h
      · cases h
        intro t ht
        obtain ⟨_, -, rfl⟩ := List.mem_map.mp ht
        rfl
    · cases h
      simp

theorem Revises.keeps_moves {row : Nat} {lead line : Text} {indents indents' : List Nat}
    {moves : List Token} (h : Revises ρ tokens)
    (hmoves : adjustIndents indents row lead line = .ok (indents', moves))
    (htokens : tokens = pre ++ moves ++ post) :
    Keeps ρ pre.length moves.length ∧ depthOf (pre ++ moves) = depthOf pre := by
  have hkinds : ∀ m ∈ moves, m.kind = .indent ∨ m.kind = .dedent := by
    rcases kind_of_mem_moves hmoves with rfl | hdedent
    · simp [tokenAt]
    · exact fun m hm => Or.inr (hdedent m hm)
  refine ⟨h.keeps htokens ?_ ?_, depthOf_append ?_⟩
  · rintro a m b rfl hkind
    rcases hkinds m (by simp) with h | h <;> rw [h] at hkind <;> cases hkind
  · rintro a m b rfl hkind
    rcases hkinds m (by simp) with h | h <;> rw [h] at hkind <;> cases hkind
  · intro m hm
    rcases hkinds m hm with h | h <;> simp [h]

/-- A row of code is kept unless it begins with a docstring. -/
theorem Revises.keeps_code_row {row : Nat} {lead line : Text} {indents indents' : List Nat}
    {moves : List Token} (h : Revises ρ tokens) (hrow : RowTokens depth l)
    (hmoves : adjustIndents indents row lead line = .ok (indents', moves))
    (htokens : tokens = pre ++ (moves ++ l.tokens) ++ post) (hdepth : depthOf pre = depth)
    (hfirst : ∀ text, ρ (pre ++ moves).length ≠ .replace text) :
    Keeps ρ pre.length (moves ++ l.tokens).length ∧
      (l.pending ≠ none → ∀ text, ρ (pre ++ (moves ++ l.tokens)).length ≠ .replace text) := by
  rw [← List.append_assoc] at htokens ⊢
  obtain ⟨hkeepsMoves, hdepthMoves⟩ := h.keeps_moves hmoves
    (htokens.trans (List.append_assoc (pre ++ moves) l.tokens post))
  obtain ⟨hkeeps, hnext⟩ := h.keeps_scan hrow htokens (hdepthMoves.trans hdepth) hfirst
  refine ⟨?_, hnext⟩
  rw [List.length_append] at hkeeps ⊢
  exact hkeepsMoves.append hkeeps

private theorem Revises.not_replaced_of_string {t : Token} {ts : List Token} (h : Revises ρ tokens)
    (htokens : tokens = pre ++ t :: ts) (hkind : t.kind = .string) (text : Text) :
    ρ (pre ++ [t]).length ≠ .replace text := by
  intro hreplace
  have hsplit : tokens = pre ++ [t] ++ ts := by
    rw [htokens, List.append_assoc, List.singleton_append]
  have hopens := ((h.replace _ text hreplace).opens hsplit).2
  exact not_opensRow_concat pre (by simp [hkind]) hopens

theorem Revises.keeps_string_row {st mid : Scanner} {p : OpenString} {row : Nat} {line : Text}
    {before : List Token} (h : Revises ρ tokens)
    (hline : scanInString st p row line = (before, mid))
    (htokens : tokens = pre ++ before ++ post) (hdepth : depthOf pre = st.depth)
    (hfirst : ∀ text, ρ pre.length ≠ .replace text) :
    Keeps ρ pre.length before.length ∧
      (mid.pending ≠ none → ∀ text, ρ (pre ++ before).length ≠ .replace text) := by
  have hstart : ∀ (t : Token) ts, before = t :: ts → t.kind ≠ .nl → ρ pre.length = .keep := by
    rintro t ts rfl hkind
    have hsplit : tokens = pre ++ t :: (ts ++ post) := by
      rw [htokens]
      simp
    exact h.keep_of_split hsplit (fun hnl => absurd hnl hkind) (fun _ _ _ => hfirst)
  simp only [scanInString] at hline
  split at hline
  · rename_i n _
    obtain ⟨rfl, rfl⟩ := Prod.mk.inj hline
    have hsplit := hstart _ _ rfl (by simp)
    have hrow := rowTokens_scanFrom row line (Text.size (line.take n)) st.depth (line.drop n)
    generalize scanFrom row line (Text.size (line.take n)) st.depth (line.drop n) = l at *
    generalize ht : (⟨.string, p.text ++ line.take n, p.start, ⟨row, Text.size (line.take n)⟩,
      p.lines ++ line⟩ : Token) = t at *
    have hkind : t.kind = .string := by rw [← ht]
    have htokens' : tokens = pre ++ t :: (l.tokens ++ post) := by
      rw [htokens]
      simp
    have hbehind : tokens = pre ++ [t] ++ l.tokens ++ post := by
      rw [htokens']
      simp
    obtain ⟨hkeeps, hnext⟩ := h.keeps_scan hrow hbehind
      (by rw [depthOf_append (by simp [hkind]), hdepth])
      (h.not_replaced_of_string htokens' hkind)
    refine ⟨?_, ?_⟩
    · rw [List.length_append, List.length_singleton] at hkeeps ⊢
      exact Keeps.append (fun j hj => by rwa [Nat.lt_one_iff.mp hj]) hkeeps
    · intro hpending
      rw [← List.append_assoc]
      exact hnext hpending
  · split at hline
    · cases hline
      refine ⟨?_, fun hopen => absurd rfl hopen⟩
      intro j hj
      obtain rfl : j = 0 := by simpa using hj
      exact hstart _ _ rfl (by simp)
    · cases hline
      refine ⟨fun j hj => absurd hj (by simp), ?_⟩
      intro _
      rwa [List.append_nil]

/-- A row without code is kept, or it is a blank line that is dropped. -/
theorem Revises.keeps_codeless_row {row column : Nat} {lead y : Text} (h : Revises ρ tokens)
    (htokens : tokens = pre ++ emptyLineTokens row column y (lead ++ y) ++ post) :
    Keeps ρ pre.length (emptyLineTokens row column y (lead ++ y)).length ∨
      ρ pre.length = .drop ∧ ∃ t, emptyLineTokens row column y (lead ++ y) = [t] := by
  generalize hbefore : emptyLineTokens row column y (lead ++ y) = before at *
  unfold emptyLineTokens at hbefore
  split at hbefore
  · rename_i rest
    left
    rw [← hbefore] at htokens ⊢
    refine h.keeps htokens ?_ ?_
    · intro a t b hsplit hkind _
      have hline : t.line = lead ++ '#' :: rest := by
        have ht : t ∈ a ++ t :: b := by simp
        rw [← hsplit] at ht
        simp only [List.mem_cons, List.not_mem_nil, or_false] at ht
        rcases ht with rfl | rfl <;> rfl
      rw [hline]
      have hmark : Character.isBlank '#' = false := by decide
      simp [Text.isBlank, hmark]
    · intro a t b hsplit hkind
      exfalso
      have ht : t ∈ a ++ t :: b := by simp
      rw [← hsplit] at ht
      simp only [List.mem_cons, List.not_mem_nil, or_false] at ht
      rcases ht with rfl | rfl <;> cases hkind
  · subst hbefore
    cases hρ : ρ pre.length with
    | drop => exact Or.inr ⟨rfl, _, rfl⟩
    | keep =>
      left
      intro j hj
      obtain rfl : j = 0 := by simpa using hj
      exact hρ
    | replace text =>
      exfalso
      have htokens' : tokens = pre ++ tokenAt .nl y row column (lead ++ y) :: post := by
        rw [htokens]
        simp
      cases ((h.replace _ text hρ).of_split htokens').1

theorem remembers_closed (x rest : Text) : Remembers false none x [] [] rest :=
  ⟨rfl, by simp, fun _ => rfl, by simp, by simp⟩

theorem Remembers.nothing_left {x tail pend rest : Text} (h : Remembers false none x tail pend rest)
    (hrow : lastRow (x ++ tail ++ pend) = []) : tail = [] ∧ pend = [] := by
  have hpend := h.closed rfl
  subst hpend
  refine ⟨?_, rfl⟩
  by_contra hne
  rw [List.append_nil] at hrow
  exact lastRow_append_ne_nil x hne (h.ended rfl rfl) hrow

end Rows

end DocstringFormat.Source
