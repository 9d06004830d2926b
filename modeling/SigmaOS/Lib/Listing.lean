import Mathlib.Order.Interval.Finset.Nat

/-!
# Listing — a sorted list fetched in pages of a fixed stride

A source holds a strictly increasing list `l` of positive numbers and answers a request for `lo` with
`page n l lo`, the first `n` numbers of `l` above `lo`.  `pages n l k lo` is what a reader collects
that asks for `lo`, `lo + n`, `lo + 2 * n`, … (`k` requests): its stride is the size of a page and
does not depend on the answers.

The reader gets `l` itself exactly when `l` is `Packed n`: below the block of `n` numbers that holds
an element of `l`, every number is an element of `l` (`pages_eq_iff`).
-/

namespace SigmaOS.Lib.Listing

open List

/-! ## Pages and blocks -/

def page (n : Nat) (l : List Nat) (lo : Nat) : List Nat :=
  (l.filter (lo < ·)).take n

def pages (n : Nat) (l : List Nat) : Nat → Nat → List Nat
  | 0, _ => []
  | k + 1, lo => page n l lo ++ pages n l k (lo + n)

/-- The elements of `l` between `lo + 1` and `hi`. -/
def block (l : List Nat) (lo hi : Nat) : List Nat :=
  l.filter fun a => lo < a && a ≤ hi

/-- Only the last block of `n` numbers with an element of `l` may have gaps. -/
def Packed (n : Nat) (l : List Nat) : Prop :=
  ∀ a ∈ l, ∀ b, 0 < b → b ≤ n * ((a - 1) / n) → b ∈ l

@[simp] lemma mem_block {l : List Nat} {lo hi a : Nat} :
    a ∈ block l lo hi ↔ a ∈ l ∧ lo < a ∧ a ≤ hi := by
  simp [block]

lemma pages_add {n : Nat} {l : List Nat} {j k lo : Nat} :
    pages n l (j + k) lo = pages n l j lo ++ pages n l k (lo + n * j) := by
  induction j generalizing lo with
  | zero => simp [pages]
  | succ j ih =>
    have hlo : lo + n + n * j = lo + n * (j + 1) := by
      rw [Nat.mul_succ, Nat.add_assoc, Nat.add_comm n]
    rw [Nat.add_right_comm]
    simp only [pages, append_assoc, ih, hlo]

section Sorted

variable {l : List Nat} {lo hi n : Nat}

section

variable (hl : l.Pairwise (· < ·))
include hl

/-- What is above `lo`, cut at `hi`. -/
lemma filter_lt_eq_block_append (hle : lo ≤ hi) :
    l.filter (lo < ·) = block l lo hi ++ l.filter (hi < ·) := by
  induction l with
  | nil => rfl
  | cons a l ih =>
    rcases pairwise_cons.1 hl with ⟨hhead, htail⟩
    have hrest := ih htail
    by_cases hahi : hi < a
    · -- everything from `a` on is above `hi`, and the block is empty
      have hempty : block (a :: l) lo hi = [] := by
        apply filter_eq_nil_iff.2
        intro b hb
        have hab : a ≤ b := by
          rcases mem_cons.1 hb with rfl | hin
          · exact Nat.le_refl b
          · exact Nat.le_of_lt (hhead b hin)
        have hgt : ¬ b ≤ hi := Nat.not_le_of_lt (Nat.lt_of_lt_of_le hahi hab)
        simp [hgt]
      rw [hempty, nil_append]
      apply filter_congr
      intro b hb
      have hab : a ≤ b := by
        rcases mem_cons.1 hb with rfl | hin
        · exact Nat.le_refl b
        · exact Nat.le_of_lt (hhead b hin)
      have hb : hi < b := Nat.lt_of_lt_of_le hahi hab
      simp [hb, Nat.lt_of_le_of_lt hle hb]
    · by_cases halo : lo < a
      · simp [block, halo, hahi, Nat.le_of_not_lt hahi, hrest]
      · simp [block, halo, hahi, hrest]

lemma length_block_le (lo hi : Nat) : (block l lo hi).length ≤ hi - lo := by
  have hnodup : (block l lo hi).Nodup := ((hl.imp Nat.ne_of_lt).filter _)
  calc
    (block l lo hi).length = (block l lo hi).toFinset.card := (toFinset_card_of_nodup hnodup).symm
    _ ≤ (Finset.Ioc lo hi).card := Finset.card_le_card fun a ha => by
        simpa using (mem_block.1 (mem_toFinset.1 ha)).2
    _ = hi - lo := Nat.card_Ioc lo hi

lemma length_block_eq_iff : (block l lo hi).length = hi - lo ↔ ∀ b, lo < b → b ≤ hi → b ∈ l := by
  have hnodup : (block l lo hi).Nodup := ((hl.imp Nat.ne_of_lt).filter _)
  have hsub : (block l lo hi).toFinset ⊆ Finset.Ioc lo hi := fun a ha => by
    simpa using (mem_block.1 (mem_toFinset.1 ha)).2
  rw [← toFinset_card_of_nodup hnodup, ← Nat.card_Ioc lo hi]
  constructor
  · intro hcard b hlo hhi
    have heq := Finset.eq_of_subset_of_card_le hsub (Nat.le_of_eq hcard.symm)
    have hb : b ∈ (block l lo hi).toFinset := by
      rw [heq]
      exact Finset.mem_Ioc.2 ⟨hlo, hhi⟩
    exact (mem_block.1 (mem_toFinset.1 hb)).1
  · intro hall
    congr 1
    apply Finset.Subset.antisymm hsub
    intro b hb
    rcases Finset.mem_Ioc.1 hb with ⟨hlo, hhi⟩
    exact mem_toFinset.2 (mem_block.2 ⟨hall b hlo hhi, hlo, hhi⟩)

lemma page_eq_block (h : l.filter (lo + n < ·) = [] ∨ ∀ b, lo < b → b ≤ lo + n → b ∈ l) :
    page n l lo = block l lo (lo + n) := by
  have hlen : (block l lo (lo + n)).length ≤ n := by simpa using length_block_le hl lo (lo + n)
  unfold page
  rw [filter_lt_eq_block_append hl (Nat.le_add_right lo n)]
  rcases h with hnone | hfull
  · rw [hnone, append_nil]
    exact take_of_length_le hlen
  · have hlen : (block l lo (lo + n)).length = n := by simpa using (length_block_eq_iff hl).2 hfull
    rw [take_append_of_le_length (Nat.le_of_eq hlen.symm)]
    exact take_of_length_le (Nat.le_of_eq hlen)

/-- A page whose block has a gap goes on into what lies above the block, so the next page starts
with a number that this one has already. -/
lemma page_overlap {a b : Nat} (ha : a ∈ l) (hab : lo + n < a) (hb : b ∉ l) (hlo : lo < b)
    (hhi : b ≤ lo + n) : ∃ c, c ∈ page n l lo ∧ c ∈ page n l (lo + n) := by
  have hshort : (block l lo (lo + n)).length < n := by
    refine Nat.lt_of_le_of_ne (by simpa using length_block_le hl lo (lo + n)) ?_
    intro heq
    exact hb ((length_block_eq_iff hl).1 (by simpa using heq) b hlo hhi)
  unfold page
  rw [filter_lt_eq_block_append hl (Nat.le_add_right lo n)]
  cases hrest : l.filter (lo + n < ·) with
  | nil => exact absurd hab (by simpa using filter_eq_nil_iff.1 hrest a ha)
  | cons c rest =>
    refine ⟨c, ?_, ?_⟩
    · rw [take_append]
      apply mem_append_right
      rw [show n - (block l lo (lo + n)).length = (n - (block l lo (lo + n)).length - 1) + 1 by
        omega, take_succ_cons]
      exact mem_cons_self
    · rw [show n = (n - 1) + 1 by omega, take_succ_cons]
      exact mem_cons_self

end

end Sorted

section Collected

variable {n : Nat} {l : List Nat}

section

variable (hl : l.Pairwise (· < ·)) (hn : 0 < n)
include hl hn

/-- Pages of a packed list, one after the other, are the list. -/
lemma pages_of_packed (hp : Packed n l) {k j : Nat} (hmax : ∀ a ∈ l, a ≤ n * (j + k)) :
    pages n l k (n * j) = l.filter (n * j < ·) := by
  induction k generalizing j with
  | zero =>
    refine (filter_eq_nil_iff.2 ?_).symm
    intro a ha
    simpa using hmax a ha
  | succ k ih =>
    have hpage : page n l (n * j) = block l (n * j) (n * j + n) := by
      apply page_eq_block hl
      cases habove : l.filter (n * j + n < ·) with
      | nil => exact .inl rfl
      | cons c rest =>
        -- the block lies below the one of `c`
        right
        intro b hlo hhi
        have hc : c ∈ l.filter (n * j + n < ·) := by
          rw [habove]
          exact mem_cons_self
        have hcl : c ∈ l ∧ n * j + n < c := by simpa using hc
        have hblock : n * (j + 1) ≤ n * ((c - 1) / n) := by
          apply Nat.mul_le_mul_left
          rw [Nat.le_div_iff_mul_le hn, Nat.mul_comm, Nat.mul_succ]
          omega
        refine hp c hcl.1 b (Nat.lt_of_le_of_lt (Nat.zero_le _) hlo) ?_
        exact Nat.le_trans hhi hblock
    have hrest := ih (j := j + 1) (by simpa [Nat.add_right_comm, Nat.add_assoc] using hmax)
    rw [Nat.mul_succ] at hrest
    simp only [pages, hpage, hrest]
    exact (filter_lt_eq_block_append hl (Nat.le_add_right (n * j) n)).symm

/-- If no entry comes twice, the list is packed. -/
lemma packed_of_nodup_pages {k : Nat} (hmax : ∀ a ∈ l, a ≤ n * k)
    (hnodup : (pages n l k 0).Nodup) : Packed n l := by
  intro a ha b hpos hb
  by_contra hgap
  -- the block of the gap, its page and the page after it
  let j := (b - 1) / n
  have hmod : n * j + (b - 1) % n = b - 1 := Nat.div_add_mod (b - 1) n
  have hmodlt : (b - 1) % n < n := Nat.mod_lt (b - 1) hn
  have hamod : n * ((a - 1) / n) + (a - 1) % n = a - 1 := Nat.div_add_mod (a - 1) n
  have hlt : j < (a - 1) / n := by
    apply Nat.lt_of_mul_lt_mul_left (a := n)
    omega
  have hnext : n * (j + 1) ≤ n * ((a - 1) / n) := Nat.mul_le_mul_left n hlt
  rw [Nat.mul_succ] at hnext
  have habove : n * j + n < a := by omega
  rcases page_overlap hl ha habove hgap (by omega) (by omega) with ⟨c, hc, hc'⟩
  have hjk : j + 1 < k := by
    apply Nat.lt_of_mul_lt_mul_left (a := n)
    exact Nat.lt_of_lt_of_le habove (hmax a ha)
  have hk : k = j + (k - j - 2 + 1 + 1) := by omega
  rw [hk, pages_add, Nat.zero_add] at hnodup
  have htwo := (nodup_append.1 hnodup).2.1
  have hne := (nodup_append.1 htwo).2.2 c hc c (mem_append_left _ hc')
  exact hne rfl

/-- The pages of a fixed stride make up the list exactly when it is packed. -/
lemma pages_eq_iff {k : Nat} (hmin : ∀ a ∈ l, 0 < a) (hmax : ∀ a ∈ l, a ≤ n * k) :
    pages n l k 0 = l ↔ Packed n l := by
  constructor
  · intro heq
    apply packed_of_nodup_pages hl hn hmax
    rw [heq]
    exact hl.imp Nat.ne_of_lt
  · intro hp
    have h := pages_of_packed hl hn hp (k := k) (j := 0) (by simpa using hmax)
    rw [Nat.mul_zero] at h
    rw [h]
    exact filter_eq_self.2 fun a ha => by simpa using hmin a ha

end

end Collected

end SigmaOS.Lib.Listing
