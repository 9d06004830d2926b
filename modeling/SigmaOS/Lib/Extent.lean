import Mathlib.Data.Set.Lattice

/-!
# Extent — sets of equally spaced blocks

`extent w b n` is the set of the `n` block addresses `b, b + w, …, b + (n-1)·w`, that is, what one
run-length-encoded entry with base `b` and length `n` stands for when blocks are `w` wide.  The
lemmas say what happens to the set when an entry grows or shrinks at either end and when two
extents are disjoint.
-/

namespace SigmaOS.Lib

/-- The `n` block addresses that start at `b` and are `w` apart. -/
def extent (w b n : Nat) : Set Nat :=
  {a | ∃ k, k < n ∧ a = b + k * w}

variable {w b n m a : Nat}

@[simp] lemma extent_zero : extent w b 0 = ∅ := by
  ext a
  simp [extent]

lemma self_mem_extent (hn : 0 < n) : b ∈ extent w b n :=
  ⟨0, hn, by simp⟩

lemma extent_add : extent w b (m + n) = extent w b m ∪ extent w (b + m * w) n := by
  ext a
  constructor
  · rintro ⟨k, hk, rfl⟩
    by_cases hkm : k < m
    · exact .inl ⟨k, hkm, rfl⟩
    · refine .inr ⟨k - m, by omega, ?_⟩
      have hsplit : k = m + (k - m) := by omega
      calc
        b + k * w = b + (m + (k - m)) * w := by rw [← hsplit]
        _ = b + m * w + (k - m) * w := by rw [Nat.add_mul, Nat.add_assoc]
  · rintro (⟨k, hk, rfl⟩ | ⟨k, hk, rfl⟩)
    · exact ⟨k, by omega, rfl⟩
    · exact ⟨m + k, by omega, by rw [Nat.add_mul, Nat.add_assoc]⟩

@[simp] lemma extent_one : extent w b 1 = {b} := by
  ext a
  constructor
  · rintro ⟨k, hk, rfl⟩
    have hk0 : k = 0 := by omega
    simp [hk0]
  · rintro rfl
    exact self_mem_extent Nat.one_pos

lemma extent_succ_left : extent w b (n + 1) = insert b (extent w (b + w) n) := by
  rw [Nat.add_comm, extent_add, extent_one, Nat.one_mul]
  rfl

lemma extent_succ_right : extent w b (n + 1) = insert (b + n * w) (extent w b n) := by
  rw [extent_add, extent_one, Set.union_comm]
  rfl

lemma extent_lower (ha : a ∈ extent w b n) : b ≤ a := by
  rcases ha with ⟨k, _, rfl⟩
  exact Nat.le_add_right _ _

lemma extent_upper (ha : a ∈ extent w b n) : a + w ≤ b + n * w := by
  rcases ha with ⟨k, hk, rfl⟩
  have hmul : (k + 1) * w ≤ n * w := Nat.mul_le_mul_right w hk
  rw [Nat.add_mul, Nat.one_mul] at hmul
  omega

lemma extent_mod (hb : b % w = 0) (ha : a ∈ extent w b n) : a % w = 0 := by
  rcases ha with ⟨k, _, rfl⟩
  rw [Nat.add_mul_mod_self_right, hb]

end SigmaOS.Lib
