import DocstringFormat.Fault
import DocstringFormat.Proofs.Text.Bytes
import DocstringFormat.Proofs.Text.LineEnding
import DocstringFormat.Proofs.Text.Words

/-!
Cuts that must not fall inside a character.

A text is cut at two byte offsets, which have to be in the right order and between characters.  An
offset is good for this exactly if it is the size of a start of the text (`IsOffset`), so parts that
concatenate to a text can be cut out of it at the sums of their sizes (`cut_append`).
-/

set_option autoImplicit false

namespace DocstringFormat.Text

/-- The bytes from `lo` up to `hi`; a fault if that is no range between characters. -/
def cut (s : Text) (lo hi : Nat) : Except Fault Text :=
  match s.extract? lo hi with
  | some part => .ok part
  | none => .error .insideCharacter

def IsOffset (s : Text) (n : Nat) : Prop :=
  ∃ before after, s = before ++ after ∧ n = before.size

variable {s : Text} {lo hi : Nat}

theorem cut_append (a b c : Text) : (a ++ (b ++ c)).cut a.size (a.size + b.size) = .ok b := by
  rw [cut, extract?_size]

theorem isOffset_zero (s : Text) : IsOffset s 0 :=
  ⟨[], s, rfl, rfl⟩

theorem isOffset_append (a b : Text) : IsOffset (a ++ b) a.size :=
  ⟨a, b, rfl, rfl⟩

theorem IsOffset.prepend {n : Nat} (h : IsOffset s n) (t : Text) :
    IsOffset (t ++ s) (t.size + n) := by
  obtain ⟨before, after, rfl, rfl⟩ := h
  rw [← List.append_assoc, ← size_append]
  exact isOffset_append _ _

private theorem IsOffset.exists_between (hlo : IsOffset s lo) (hhi : IsOffset s hi)
    (hle : lo ≤ hi) :
    ∃ a b c, s = a ++ (b ++ c) ∧ lo = a.size ∧ hi = a.size + b.size := by
  obtain ⟨a, rest, hs, rfl⟩ := hlo
  obtain ⟨before, c, hs', rfl⟩ := hhi
  obtain ⟨b, rfl⟩ := prefix_of_size_le ⟨rest, hs.symm⟩ ⟨c, hs'.symm⟩ hle
  exact ⟨a, b, c, by rw [hs', List.append_assoc], rfl, size_append a b⟩

theorem cut_eq (hlo : IsOffset s lo) (hhi : IsOffset s hi) (hle : lo ≤ hi) :
    s.cut lo hi = .ok (s.extract lo hi) := by
  obtain ⟨a, b, c, rfl, rfl, rfl⟩ := hlo.exists_between hhi hle
  rw [cut_append, extract_size]

theorem cut_zero_eq (hhi : IsOffset s hi) : s.cut 0 hi = .ok (s.takeBytes hi) := by
  rw [cut_eq (isOffset_zero s) hhi (Nat.zero_le hi), extract, Nat.sub_zero]
  cases s <;> rfl

theorem cut_size_eq (hlo : IsOffset s lo) : s.cut lo s.size = .ok (s.dropBytes lo) := by
  obtain ⟨a, b, rfl, rfl⟩ := hlo
  have h := cut_append a b []
  rw [List.append_nil] at h
  rw [size_append, h, dropBytes_size]

theorem cut_leadingBlanks (s : Text) :
    s.cut 0 (s.size - s.trimStart.size) = .ok s.leadingBlanks := by
  have hs := leadingBlanks_append_trimStart s
  have hsize : s.size = s.leadingBlanks.size + s.trimStart.size := by
    rw [← size_append, hs]
  have hcut := cut_append [] s.leadingBlanks s.trimStart
  rw [List.nil_append, hs] at hcut
  rw [hsize, Nat.add_sub_cancel]
  simpa using hcut

theorem cut_terminatedLines {earlier later : List Text} {line : Text}
    (h : s.terminatedLines = earlier ++ line :: later) :
    s.cut (size earlier.flatten) (size earlier.flatten + line.size) = .ok line := by
  have hs : s = earlier.flatten ++ (line ++ later.flatten) := by
    rw [← flatten_terminatedLines s, h]
    simp
  rw [hs]
  exact cut_append _ _ _

end DocstringFormat.Text
