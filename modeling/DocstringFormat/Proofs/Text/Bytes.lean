import DocstringFormat.Text.Basic
import Mathlib.Data.List.Infix

/-!
Cutting a text at byte offsets.

An offset between two characters is the size of the text before it.  At such an offset a text is
cut into exactly the part before and the part after (`takeBytes_size`, `dropBytes_size`,
`extract_size`).
-/

set_option autoImplicit false

namespace DocstringFormat.Text

@[simp] theorem size_nil : size [] = 0 := rfl

@[simp] theorem size_cons (c : Char) (s : Text) : size (c :: s) = c.utf8Size + size s := rfl

@[simp] theorem size_append (s t : Text) : size (s ++ t) = size s + size t := by
  induction s with
  | nil => simp
  | cons c s ih => simp [ih, Nat.add_assoc]

theorem size_pos {s : Text} (h : s ≠ []) : 0 < size s := by
  cases s with
  | nil => exact absurd rfl h
  | cons c s =>
    have hc : 0 < c.utf8Size := c.utf8Size_pos
    simp only [size_cons]
    omega

theorem eq_nil_of_size {s : Text} (h : size s = 0) : s = [] := by
  by_contra hne
  have hpos := size_pos hne
  omega

theorem takeBytes_append_dropBytes (n : Nat) (s : Text) : takeBytes n s ++ dropBytes n s = s := by
  fun_induction takeBytes n s with
  | case1 s => cases s <;> rfl
  | case2 n => rfl
  | case3 n c rest ih =>
    rw [dropBytes, List.cons_append, ih]

theorem takeBytes_size (a b : Text) : takeBytes (size a) (a ++ b) = a := by
  induction a with
  | nil => cases b <;> rfl
  | cons c a ih =>
    obtain ⟨n, hn⟩ : ∃ n, c.utf8Size + size a = n + 1 :=
      ⟨c.utf8Size + size a - 1, by have := c.utf8Size_pos; omega⟩
    have hrest : n + 1 - c.utf8Size = size a := by omega
    rw [size_cons, hn, List.cons_append, takeBytes, hrest, ih]

theorem dropBytes_size (a b : Text) : dropBytes (size a) (a ++ b) = b := by
  have h := takeBytes_append_dropBytes (size a) (a ++ b)
  rw [takeBytes_size] at h
  exact List.append_cancel_left h

private theorem isBoundary_size (a b : Text) : isBoundary (size a) (a ++ b) = true := by
  induction a with
  | nil => cases b <;> rfl
  | cons c a ih =>
    obtain ⟨n, hn⟩ : ∃ n, c.utf8Size + size a = n + 1 :=
      ⟨c.utf8Size + size a - 1, by have := c.utf8Size_pos; omega⟩
    have hrest : n + 1 - c.utf8Size = size a := by omega
    have hle : c.utf8Size ≤ n + 1 := by omega
    rw [size_cons, hn, List.cons_append, isBoundary, hrest, ih]
    simp [hle]

theorem extract_size (a b c : Text) : extract (a ++ (b ++ c)) (size a) (size a + size b) = b := by
  have hlen : size a + size b - size a = size b := by omega
  rw [extract, dropBytes_size, hlen, takeBytes_size]

theorem extract?_size (a b c : Text) :
    extract? (a ++ (b ++ c)) (size a) (size a + size b) = some b := by
  have hstart : isBoundary (size a) (a ++ (b ++ c)) = true := isBoundary_size a (b ++ c)
  have hstop : isBoundary (size a + size b) (a ++ (b ++ c)) = true := by
    rw [← size_append, ← List.append_assoc]
    exact isBoundary_size (a ++ b) c
  have hle : size a ≤ size a + size b := by omega
  rw [extract?, if_pos ⟨hle, hstart, hstop⟩, extract_size]

theorem extract?_to_size (a b : Text) : extract? (a ++ b) (size a) (size (a ++ b)) = some b := by
  have h := extract?_size a b []
  simpa using h

theorem prefix_of_size_le {a b s : Text} (ha : a <+: s) (hb : b <+: s) (h : size a ≤ size b) :
    a <+: b := by
  rcases List.prefix_or_prefix_of_prefix ha hb with hab | hba
  · exact hab
  · obtain ⟨r, rfl⟩ := hba
    have hr : r = [] := eq_nil_of_size (by simp only [size_append] at h; omega)
    subst hr
    simp

end DocstringFormat.Text
