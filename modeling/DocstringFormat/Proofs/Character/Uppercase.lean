import DocstringFormat.Character.Blank
import DocstringFormat.Character.Numeric
import DocstringFormat.Character.Uppercase
import Mathlib.Data.List.Infix

/-!
The uppercase forms of all characters.

Every character that has another uppercase form stands in one list with that form
(`uppercase_cases`), so a fact about uppercase forms is a fact about the list.  The list is long, and
whether two long lists of code points have one in common is read off their bit sets (`not_mem_of_land_eq_zero`).
An uppercase form starts with a character that stays as it is (`uppercase_of_head`), and only letters
have another one (`uppercase_of_not_alphanumeric`).
-/

set_option autoImplicit false
set_option maxRecDepth 8192

namespace DocstringFormat.Character

/-- The code points of a run, each with its uppercase form. -/
def CaseRun.pairs (r : CaseRun) : List (Nat × List Nat) :=
  ((List.range (r.last - r.first + 1)).filter (· % r.step == 0)).map fun k =>
    (r.first + k, [r.upper + k])

/-- All code points that have another uppercase form, each with it. -/
def casePairs : List (Nat × List Nat) :=
  caseExpansions ++ caseRuns.flatMap CaseRun.pairs

private theorem CaseRun.mem_pairs {r : CaseRun} {n code : Nat} (h : r.upper? n = some code) :
    (n, [code]) ∈ r.pairs := by
  unfold CaseRun.upper? at h
  split at h
  · rename_i hrange
    cases h
    refine List.mem_map.mpr ⟨n - r.first, List.mem_filter.mpr ⟨List.mem_range.mpr ?_, ?_⟩, ?_⟩
    · omega
    · simpa using hrange.2.2
    · rw [Nat.add_sub_cancel' hrange.1]
  · cases h

private theorem uppercase_cases (c : Char) :
    uppercase c = [c] ∨
      ∃ codes, (c.toNat, codes) ∈ casePairs ∧ uppercase c = codes.map Char.ofNat := by
  unfold uppercase
  split
  · rename_i codes hcodes
    obtain ⟨before, after, hlist, -⟩ := List.lookup_eq_some_iff.mp hcodes
    refine Or.inr ⟨codes, List.mem_append_left _ ?_, rfl⟩
    rw [hlist]
    simp
  · split
    · rename_i code hcode
      obtain ⟨r, hr, hupper⟩ := List.exists_of_findSome?_eq_some hcode
      refine Or.inr ⟨[code], List.mem_append_right _ ?_, rfl⟩
      exact List.mem_flatMap.mpr ⟨r, hr, CaseRun.mem_pairs hupper⟩
    · exact Or.inl rfl

private theorem uppercase_of_not_mem {c : Char} (h : c.toNat ∉ casePairs.map Prod.fst) :
    uppercase c = [c] := by
  rcases uppercase_cases c with hself | ⟨codes, hmem, -⟩
  · exact hself
  · exact absurd (List.mem_map_of_mem hmem) h

theorem uppercase_ne_nil (c : Char) : uppercase c ≠ [] := by
  have hall : casePairs.all (fun p => !p.2.isEmpty) = true := by decide +kernel
  rcases uppercase_cases c with hself | ⟨codes, hmem, hcodes⟩
  · simp [hself]
  · have hne := List.all_eq_true.mp hall _ hmem
    rw [hcodes]
    simpa using hne

theorem forall_mem_uppercase {P : Char → Prop} {c : Char} (hc : P c)
    (hlisted : ∀ p ∈ casePairs, ∀ n ∈ p.2, P (Char.ofNat n)) : ∀ d ∈ uppercase c, P d := by
  intro d hd
  rcases uppercase_cases c with hself | ⟨codes, hmem, hcodes⟩
  · rw [hself, List.mem_singleton] at hd
    exact hd ▸ hc
  · rw [hcodes] at hd
    obtain ⟨n, hn, rfl⟩ := List.mem_map.mp hd
    exact hlisted _ hmem n hn

section BitSets

def bitSet : List Nat → Nat
  | [] => 0
  | n :: codes => bitSet codes ||| 1 <<< n

def RangeTable.bitSet : RangeTable → Nat
  | [] => 0
  | (lo, hi) :: rest => ((1 <<< (hi + 1 - lo) - 1) ||| (RangeTable.bitSet rest >>> lo)) <<< lo

private theorem testBit_bitSet {n : Nat} {codes : List Nat} (h : n ∈ codes) :
    (bitSet codes).testBit n = true := by
  induction codes with
  | nil => cases h
  | cons m codes ih =>
    rw [bitSet, Nat.testBit_or, Bool.or_eq_true]
    rcases List.mem_cons.mp h with rfl | h
    · right
      simp
    · exact Or.inl (ih h)

private theorem RangeTable.testBit_bitSet (table : RangeTable) (n : Nat) :
    table.bitSet.testBit n = table.contains n := by
  induction table with
  | nil => exact Nat.zero_testBit n
  | cons range rest ih =>
    obtain ⟨lo, hi⟩ := range
    rw [RangeTable.bitSet, RangeTable.contains, Nat.testBit_shiftLeft, Nat.testBit_or,
      Nat.one_shiftLeft, Nat.testBit_two_pow_sub_one, Nat.testBit_shiftRight]
    by_cases hlo : lo ≤ n
    · have hrange : n - lo < hi + 1 - lo ↔ n ≤ hi := by omega
      simp [hlo, hrange, ih, Nat.add_sub_cancel' hlo]
    · simp [hlo]

private theorem not_mem_of_land_eq_zero {codes others : List Nat}
    (h : bitSet codes &&& bitSet others = 0)
    {n : Nat} (hn : n ∈ others) : n ∉ codes := by
  intro hmem
  have hbit : (bitSet codes &&& bitSet others).testBit n = true := by
    rw [Nat.testBit_and, testBit_bitSet hmem, testBit_bitSet hn]
    rfl
  rw [h, Nat.zero_testBit] at hbit
  cases hbit

private theorem RangeTable.contains_of_land_eq {table : RangeTable} {codes : List Nat}
    (h : Character.bitSet codes &&& table.bitSet = Character.bitSet codes) {n : Nat}
    (hn : n ∈ codes) : table.contains n = true := by
  have hbit := Character.testBit_bitSet hn
  rw [← h, Nat.testBit_and, table.testBit_bitSet, Bool.and_eq_true] at hbit
  exact hbit.2

end BitSets

theorem toNat_ofNat_mem (n : Nat) : (Char.ofNat n).toNat ∈ [0, n] := by
  by_cases hvalid : n.isValidChar
  · have hchar : Char.ofNat n = Char.ofNatAux n hvalid := dif_pos hvalid
    have hcode : (Char.ofNat n).toNat = n := congrArg Char.toNat hchar
    simp [hcode]
  · have hchar : Char.ofNat n = '\x00' := dif_neg hvalid
    simp [hchar]

/-- The first character of an uppercase form stays as it is. -/
theorem uppercase_of_head {c d : Char} (h : (uppercase c).head? = some d) : uppercase d = [d] := by
  have hapart : bitSet (casePairs.map Prod.fst) &&&
      bitSet (casePairs.flatMap fun p => 0 :: p.2.take 1) = 0 := by decide +kernel
  rcases uppercase_cases c with hself | ⟨codes, hmem, hcodes⟩
  · rw [hself] at h
    cases h
    exact hself
  · rw [hcodes] at h
    cases codes with
    | nil => cases h
    | cons n codes =>
      cases h
      apply uppercase_of_not_mem
      apply not_mem_of_land_eq_zero hapart
      exact List.mem_flatMap.mpr ⟨_, hmem, toNat_ofNat_mem n⟩

/-- Only letters have another uppercase form. -/
theorem uppercase_of_not_alphanumeric {c : Char} (h : isAlphanumeric c = false) :
    uppercase c = [c] := by
  rcases uppercase_cases c with hself | ⟨codes, hmem, -⟩
  · exact hself
  · have hcovered : bitSet (casePairs.map Prod.fst) &&& alphabeticRanges.bitSet =
        bitSet (casePairs.map Prod.fst) := by decide +kernel
    have hletter : isAlphabetic c = true :=
      RangeTable.contains_of_land_eq hcovered (List.mem_map_of_mem hmem)
    rw [isAlphanumeric, hletter] at h
    cases h

end DocstringFormat.Character
