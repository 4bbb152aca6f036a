import DocstringFormat.Proofs.Source.StringToken
import DocstringFormat.Proofs.Text.Bytes

/-!
The closing quote of a string, looked for byte by byte.

`closingByte?` walks through the UTF-8 form of a row by offset: a backslash takes the byte after it
along, and at any other byte either the quote starts or the search goes on with the next byte.
It may stop between the bytes of one character, which does no harm: all of these are above the bytes
of a quote and of a backslash.  So it finds the offset that `closingLength?` finds in characters
(`closingByte?_bytes`).
-/

set_option autoImplicit false

namespace DocstringFormat.Source

def bytes (s : Text) : List UInt8 :=
  s.flatMap String.utf8EncodeChar

def closingByte? (quote row : List UInt8) (i : Nat) : Option Nat :=
  if h : i < row.length then
    if row[i] = '\\'.toUInt8 then closingByte? quote row (i + 2)
    else if quote.isPrefixOf (row.drop i) then some (i + quote.length)
    else closingByte? quote row (i + 1)
  else none
termination_by row.length - i

section Encoding

private theorem bytes_cons (c : Char) (s : Text) :
    bytes (c :: s) = String.utf8EncodeChar c ++ bytes s :=
  List.flatMap_cons

private theorem length_bytes (s : Text) : (bytes s).length = s.size := by
  induction s with
  | nil => rfl
  | cons c s ih =>
    rw [bytes_cons, List.length_append, String.length_utf8EncodeChar, ih, Text.size_cons]

private theorem utf8EncodeChar_of_ascii {c : Char} (hc : c.toNat < 128) :
    String.utf8EncodeChar c = [c.toUInt8] := by
  have hsize : c.utf8Size = 1 := by
    rw [Char.utf8Size_eq_one_iff, UInt32.le_iff_toNat_le]
    exact Nat.le_of_lt_succ hc
  exact String.utf8EncodeChar_eq_singleton hsize

private theorem toNat_toUInt8 {c : Char} (hc : c.toNat < 128) : c.toUInt8.toNat = c.toNat := by
  change c.toNat % 256 = c.toNat
  omega

private theorem le_of_mem_utf8EncodeChar {c : Char} (hc : ¬ c.toNat < 128) {b : UInt8}
    (hb : b ∈ String.utf8EncodeChar c) : 128 ≤ b.toNat := by
  have hbig : ¬ c.val.toNat ≤ 127 := fun h => hc (Nat.lt_succ_of_le h)
  rw [String.utf8EncodeChar] at hb
  simp only [hbig, if_false] at hb
  split at hb
  · simp only [List.mem_cons, List.not_mem_nil, or_false] at hb
    rcases hb with rfl | rfl <;> simp only [UInt8.toNat_ofNat'] <;> omega
  · split at hb
    · simp only [List.mem_cons, List.not_mem_nil, or_false] at hb
      rcases hb with rfl | rfl | rfl <;> simp only [UInt8.toNat_ofNat'] <;> omega
    · simp only [List.mem_cons, List.not_mem_nil, or_false] at hb
      rcases hb with rfl | rfl | rfl | rfl <;> simp only [UInt8.toNat_ofNat'] <;> omega

private theorem exists_cons_utf8EncodeChar (c : Char) :
    ∃ b high, String.utf8EncodeChar c = b :: high ∧ (∀ x ∈ high, 128 ≤ x.toNat) ∧
      ∀ a : Char, a.toNat < 128 → (a.toUInt8 = b ↔ a = c) := by
  by_cases hc : c.toNat < 128
  · refine ⟨c.toUInt8, [], utf8EncodeChar_of_ascii hc, by simp, fun a ha => ⟨fun h => ?_, ?_⟩⟩
    · apply Char.toNat_inj.mp
      rw [← toNat_toUInt8 ha, ← toNat_toUInt8 hc, h]
    · exact congrArg Char.toUInt8
  · obtain ⟨b, high, hbytes⟩ := List.exists_cons_of_ne_nil (String.utf8EncodeChar_ne_nil (c := c))
    have hall : ∀ x ∈ b :: high, 128 ≤ x.toNat := fun x hx =>
      le_of_mem_utf8EncodeChar hc (hbytes ▸ hx)
    refine ⟨b, high, hbytes, fun x hx => hall x (List.mem_cons_of_mem b hx),
      fun a ha => ⟨fun h => ?_, fun h => absurd (h ▸ ha) hc⟩⟩
    have hb := hall b List.mem_cons_self
    rw [← h, toNat_toUInt8 ha] at hb
    omega

private theorem isPrefixOf_bytes {quote : Text} (hascii : ∀ c ∈ quote, c.toNat < 128) (s : Text) :
    (bytes quote).isPrefixOf (bytes s) = quote.isPrefixOf s := by
  induction quote generalizing s with
  | nil => rfl
  | cons q quote ih =>
    have hq : q.toNat < 128 := hascii q List.mem_cons_self
    rw [bytes_cons, utf8EncodeChar_of_ascii hq, List.singleton_append]
    cases s with
    | nil => rfl
    | cons c s =>
      obtain ⟨b, high, hbytes, -, hfirst⟩ := exists_cons_utf8EncodeChar c
      rw [bytes_cons, List.isPrefixOf_cons_cons]
      by_cases hsame : q = c
      · subst hsame
        rw [utf8EncodeChar_of_ascii hq, List.singleton_append, List.isPrefixOf_cons_cons,
          beq_self_eq_true, beq_self_eq_true, ih fun d hd => hascii d (List.mem_cons_of_mem q hd)]
      · have hother : q.toUInt8 ≠ b := fun h => hsame ((hfirst q hq).mp h)
        rw [hbytes, List.cons_append, List.isPrefixOf_cons_cons, beq_false_of_ne hother,
          beq_false_of_ne hsame, Bool.false_and, Bool.false_and]

end Encoding

section Search

variable {quote : List UInt8}

private theorem closingByte?_length (row : List UInt8) {i : Nat} (h : row.length ≤ i) :
    closingByte? quote row i = none := by
  rw [closingByte?, dif_neg (by omega)]

private theorem closingByte?_cons (read : List UInt8) (b : UInt8) (rest : List UInt8) :
    closingByte? quote (read ++ b :: rest) read.length =
      if b = '\\'.toUInt8 then closingByte? quote (read ++ b :: rest) (read.length + 2)
      else if quote.isPrefixOf (b :: rest) then some (read.length + quote.length)
      else closingByte? quote (read ++ b :: rest) (read.length + 1) := by
  rw [closingByte?, dif_pos (by simp)]
  simp only [List.getElem_append_right (Nat.le_refl _), Nat.sub_self, List.getElem_cons_zero,
    List.drop_left]

private theorem closingByte?_high (hascii : ∀ b ∈ quote, b.toNat < 128) (hne : quote ≠ [])
    (read high rest : List UInt8) (hhigh : ∀ b ∈ high, 128 ≤ b.toNat) :
    closingByte? quote (read ++ (high ++ rest)) read.length =
      closingByte? quote ((read ++ high) ++ rest) (read ++ high).length := by
  induction high generalizing read with
  | nil => simp
  | cons b high ih =>
    have hb : 128 ≤ b.toNat := hhigh b List.mem_cons_self
    have hslash : b ≠ '\\'.toUInt8 := by
      rintro rfl
      exact absurd hb (by decide)
    have hstart : ¬ quote.isPrefixOf (b :: (high ++ rest)) = true := by
      obtain ⟨q, quote', rfl⟩ := List.exists_cons_of_ne_nil hne
      rw [List.isPrefixOf_cons_cons, Bool.and_eq_true, beq_iff_eq]
      rintro ⟨rfl, -⟩
      have hq := hascii q List.mem_cons_self
      omega
    have hnext := ih (read ++ [b]) fun d hd => hhigh d (List.mem_cons_of_mem b hd)
    simp only [List.append_assoc, List.singleton_append, List.length_append, List.length_cons,
      List.length_nil, Nat.zero_add] at hnext
    rw [List.cons_append, closingByte?_cons, if_neg hslash, if_neg hstart, hnext]
    simp

end Search

private theorem closingByte?_append_bytes {quote : Text} (hascii : ∀ c ∈ quote, c.toNat < 128)
    (hne : quote ≠ []) (s : Text) (read : List UInt8) :
    closingByte? (bytes quote) (read ++ bytes s) read.length =
      (closingLength? quote s).map fun n => read.length + Text.size (s.take n) := by
  have hbytes : ∀ b ∈ bytes quote, b.toNat < 128 := by
    intro b hb
    obtain ⟨q, hq, hmem⟩ := List.mem_flatMap.mp hb
    rw [utf8EncodeChar_of_ascii (hascii q hq), List.mem_singleton] at hmem
    rw [hmem, toNat_toUInt8 (hascii q hq)]
    exact hascii q hq
  have hnonempty : bytes quote ≠ [] := by
    rw [← List.length_pos_iff_ne_nil, length_bytes]
    exact Text.size_pos hne
  induction s using escape_induction generalizing read with
  | nil => exact closingByte?_length _ (by simp [bytes])
  | lone =>
    change closingByte? _ (read ++ ['\\'.toUInt8]) _ = none
    rw [closingByte?_cons, if_pos rfl]
    exact closingByte?_length _ (by simp)
  | escape d s ih =>
    -- The offset may now stand within `d`; the bytes left of it are passed.
    obtain ⟨b, high, hd, hhigh, -⟩ := exists_cons_utf8EncodeChar d
    have hsplit : bytes ('\\' :: d :: s) = '\\'.toUInt8 :: b :: (high ++ bytes s) := by
      rw [bytes_cons, bytes_cons, hd, utf8EncodeChar_of_ascii (by decide)]
      rfl
    have hsize : (b :: high).length = d.utf8Size := by
      rw [← hd, String.length_utf8EncodeChar]
    have hpass := closingByte?_high hbytes hnonempty (read ++ ['\\'.toUInt8, b]) high (bytes s) hhigh
    rw [ih] at hpass
    simp only [List.append_assoc, List.cons_append, List.nil_append, List.length_append,
      List.length_cons, List.length_nil, Nat.zero_add] at hpass hsize
    rw [hsplit, closingByte?_cons, if_pos rfl, hpass, closingLength?_escape, Option.map_map]
    congr 1
    funext n
    have hslash : ('\\' : Char).utf8Size = 1 := by decide
    simp only [Function.comp_apply, List.take_succ_cons, Text.size_cons]
    omega
  | plain c s hc ih =>
    obtain ⟨b, high, hb, hhigh, hfirst⟩ := exists_cons_utf8EncodeChar c
    have hsplit : bytes (c :: s) = b :: (high ++ bytes s) := by
      rw [bytes_cons, hb]
      rfl
    have hslash : b ≠ '\\'.toUInt8 := fun h => hc ((hfirst '\\' (by decide)).mp h.symm).symm
    have hstart := isPrefixOf_bytes hascii (c :: s)
    rw [hsplit] at hstart
    rw [hsplit, closingByte?_cons, if_neg hslash, hstart, closingLength?_plain hc]
    have hsize : (b :: high).length = c.utf8Size := by
      rw [← hb, String.length_utf8EncodeChar]
    split
    case isTrue hfound =>
      have htake := List.prefix_iff_eq_take.mp (List.isPrefixOf_iff_prefix.mp hfound)
      rw [Option.map_some, ← htake, length_bytes]
    case isFalse =>
      have hpass := closingByte?_high hbytes hnonempty (read ++ [b]) high (bytes s) hhigh
      rw [ih] at hpass
      simp only [List.append_assoc, List.singleton_append, List.length_append, List.length_cons,
        List.length_nil, Nat.zero_add] at hpass hsize
      rw [hpass, Option.map_map]
      congr 1
      funext n
      simp only [Function.comp_apply, List.take_succ_cons, Text.size_cons]
      omega

private theorem IsOpeningQuote.ascii {quote : Text} (h : IsOpeningQuote quote) :
    ∀ c ∈ quote, c.toNat < 128 := by
  obtain ⟨q, rfl | rfl, rfl | rfl⟩ := h <;> simp

/-- From the end of `start` on, the offset behind the closing quote is where the characters up to the
quote end. -/
theorem closingByte?_bytes {quote : Text} (h : IsOpeningQuote quote) (start s : Text) :
    closingByte? (bytes quote) (bytes (start ++ s)) start.size =
      (closingLength? quote s).map fun n => Text.size (start ++ s.take n) := by
  have hne : quote ≠ [] := by
    obtain ⟨q, -, rfl | rfl⟩ := h <;> simp
  have hsearch := closingByte?_append_bytes h.ascii hne s (bytes start)
  simp only [length_bytes] at hsearch
  simp only [Text.size_append, ← hsearch, bytes, List.flatMap_append]

-- The search lands within the escaped letter and goes on behind it.
example : closingByte? (bytes ['"']) (bytes (['"'] ++ ['\\', 'é', '"', 'x'])) (Text.size ['"']) =
    some 5 := by
  rw [closingByte?_bytes ⟨'"', Or.inl rfl, Or.inl rfl⟩]
  decide

end DocstringFormat.Source
