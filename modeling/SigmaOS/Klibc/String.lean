import Mathlib.Algebra.Group.Nat.Defs
import Mathlib.Logic.Function.Basic
import Mathlib.Tactic.Lemma

/-!
# Klibc.String — `memmove`

A loop copies from `src i` to `dst i`, one index after the other, inside one memory.  When no round
overwrites what a later round wants to read, it moves what was there before it (`copyLoop_dst`), and it
never changes any other place (`copyLoop_frame`).  `memmove` copies upwards when the destination is
below the source and downwards otherwise, so that a byte is read before it is overwritten.
-/

namespace SigmaOS.Klibc

open List

/-! ## Copies inside one memory -/

section CopyLoop

variable {A V ι : Type*} [DecidableEq A] {dst src : ι → A} {order : List ι} {m : A → V}

/-- One round for each index: `dst i` gets what `src i` holds at that moment. -/
def copyLoop (dst src : ι → A) (order : List ι) (m : A → V) : A → V :=
  order.foldl (fun m i => Function.update m (dst i) (m (src i))) m

lemma copyLoop_frame {a : A} (h : ∀ i ∈ order, a ≠ dst i) : copyLoop dst src order m a = m a := by
  induction order generalizing m with
  | nil => rfl
  | cons k order ih =>
    have hrest := ih (m := Function.update m (dst k) (m (src k)))
      fun i hi => h i (mem_cons_of_mem k hi)
    exact hrest.trans (Function.update_of_ne (h k mem_cons_self) _ _)

/-- No round reads or writes a place that an earlier round has written. -/
lemma copyLoop_dst (hreads : order.Pairwise fun i j => src j ≠ dst i)
    (hwrites : order.Pairwise fun i j => dst i ≠ dst j) :
    ∀ i ∈ order, copyLoop dst src order m (dst i) = m (src i) := by
  induction order generalizing m with
  | nil => exact nofun
  | cons k order ih =>
    rcases pairwise_cons.1 hreads with ⟨hread, hreads'⟩
    rcases pairwise_cons.1 hwrites with ⟨hwrite, hwrites'⟩
    intro i hi
    rcases mem_cons.1 hi with rfl | hin
    · exact (copyLoop_frame hwrite).trans (Function.update_self _ _ _)
    · exact (ih hreads' hwrites' i hin).trans (Function.update_of_ne (hread i hin) _ _)

end CopyLoop

/-! ## `memmove` -/

abbrev Memory := BitVec 64 → BitVec 8

def index (p : BitVec 64) (i : Nat) : BitVec 64 :=
  p + BitVec.ofNat 64 i

def memmove (dst src size : BitVec 64) (m : Memory) : BitVec 64 × Memory :=
  if dst < src then (dst, copyLoop (index dst) (index src) (range size.toNat) m)
  else (dst, copyLoop (index dst) (index src) (range size.toNat).reverse m)

section Index

variable {p q : BitVec 64} {i j n : Nat}

lemma toNat_index (hp : p.toNat + n ≤ 2 ^ 64) (hi : i < n) : (index p i).toNat = p.toNat + i := by
  have hlt : p.toNat + i < 2 ^ 64 := Nat.lt_of_lt_of_le (Nat.add_lt_add_left hi _) hp
  rw [index, BitVec.toNat_add, BitVec.toNat_ofNat, Nat.add_mod_mod, Nat.mod_eq_of_lt hlt]

lemma index_ne (hp : p.toNat + n ≤ 2 ^ 64) (hq : q.toNat + n ≤ 2 ^ 64) (hi : i < n) (hj : j < n)
    (hne : p.toNat + i ≠ q.toNat + j) : index p i ≠ index q j := by
  intro h
  apply hne
  rw [← toNat_index hp hi, ← toNat_index hq hj, h]

lemma ne_index (hp : p.toNat + n ≤ 2 ^ 64) (hi : i < n) {a : BitVec 64}
    (ha : ¬ (p.toNat ≤ a.toNat ∧ a.toNat < p.toNat + n)) : a ≠ index p i := by
  rintro rfl
  rw [toNat_index hp hi] at ha
  omega

end Index

/-- The destination gets the bytes that the source held before the call, however the two ranges
overlap, and no other byte changes. -/
theorem memmove_moves (m : Memory) (dst src size : BitVec 64)
    (hdst : dst.toNat + size.toNat ≤ 2 ^ 64) (hsrc : src.toNat + size.toNat ≤ 2 ^ 64) :
    (memmove dst src size m).1 = dst ∧
      (∀ i < size.toNat, (memmove dst src size m).2 (index dst i) = m (index src i)) ∧
      ∀ a : BitVec 64, ¬ (dst.toNat ≤ a.toNat ∧ a.toNat < dst.toNat + size.toNat) →
        (memmove dst src size m).2 a = m a := by
  have hup : (range size.toNat).Pairwise (· < ·) := pairwise_lt_range
  have hdown : (range size.toNat).reverse.Pairwise (· > ·) := pairwise_reverse.2 hup
  by_cases hlt : dst < src
  · have hlt' : dst.toNat < src.toNat := hlt
    rw [memmove, if_pos hlt]
    refine ⟨rfl, fun i hi => ?_, fun a ha => ?_⟩
    · -- upwards: a later round reads above what is written
      refine copyLoop_dst (hup.imp_of_mem ?_) (hup.imp_of_mem ?_) i (mem_range.2 hi)
      · intro k l hk hl hkl
        exact index_ne hsrc hdst (mem_range.1 hl) (mem_range.1 hk) (by omega)
      · intro k l hk hl hkl
        exact index_ne hdst hdst (mem_range.1 hk) (mem_range.1 hl) (by omega)
    · exact copyLoop_frame fun i hi => ne_index hdst (mem_range.1 hi) ha
  · have hge : src.toNat ≤ dst.toNat := Nat.le_of_not_lt hlt
    rw [memmove, if_neg hlt]
    refine ⟨rfl, fun i hi => ?_, fun a ha => ?_⟩
    · -- downwards: a later round reads below what is written
      refine copyLoop_dst (hdown.imp_of_mem ?_) (hdown.imp_of_mem ?_) i
        (mem_reverse.2 (mem_range.2 hi))
      · intro k l hk hl hkl
        rw [mem_reverse, mem_range] at hk hl
        exact index_ne hsrc hdst hl hk (by omega)
      · intro k l hk hl hkl
        rw [mem_reverse, mem_range] at hk hl
        exact index_ne hdst hdst hk hl (by omega)
    · refine copyLoop_frame fun i hi => ne_index hdst ?_ ha
      exact mem_range.1 (mem_reverse.1 hi)

/-- Two bytes are moved up by one, over each other. -/
theorem memmove_moves_overlap : (memmove 1#64 0#64 2#64 (BitVec.setWidth 8)).2 2#64 = 1#8 :=
  (memmove_moves (BitVec.setWidth 8) 1#64 0#64 2#64 (by decide) (by decide)).2.1 1 (by decide)

end SigmaOS.Klibc
