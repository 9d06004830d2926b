import Mathlib.Data.Finset.Basic
import SigmaOS.Types.Containers

/-!
# Types.Bitmap — the bitmap as a set of bits

`types::bitmap` of the kernel and `bitmap<nBits>` of the drivers have the same bodies and round the
number of their bits up to whole bytes in the same way.  `set` and `clear` change one bit, and
`test` reports it.  The search of `get_free_bit` does not know the number of bits: it goes through
the whole array, and the bits that fill up the last byte are never set.
-/

namespace SigmaOS.Types

open List BitVec

/-! ## The two classes -/

namespace Bitmap

def cleared (nBytes : BitVec 64) : Bitmap :=
  ⟨List.replicate nBytes.toNat 0#8⟩

def kernel (nBits : BitVec 64) : Bitmap :=
  cleared (divCeil nBits 8#64)

def driver (nBits : BitVec 64) : Bitmap :=
  cleared (divCeil nBits 8#64)

def clear (b : Bitmap) (bit : Nat) : Bitmap :=
  { array := b.array.modify (bit / 8) (· &&& ~~~(1#8 <<< (bit % 8))) }

/-- No answer is an access behind the end of the array. -/
def test (b : Bitmap) (bit : Nat) : Option Bool :=
  b.array[bit / 8]?.map fun byte => decide (byte &&& 1#8 <<< (bit % 8) ≠ 0#8)

inductive Call
  | set (bit : Nat)
  | clear (bit : Nat)

def Call.bit : Call → Nat
  | .set bit => bit
  | .clear bit => bit

def call (b : Bitmap) : Call → Bitmap
  | .set bit => b.set bit
  | .clear bit => b.clear bit

/-! ## Bits -/

def bitAt (array : List (BitVec 8)) (k : Nat) : Bool :=
  (array.getD (k / 8) 0#8).getLsbD (k % 8)

section Bits

variable {array : List (BitVec 8)} {byte : BitVec 8} {b : Bitmap} {bit j k : Nat}

lemma getLsbD_bit (hj : j < 8) : (1#8 <<< j).getLsbD k = decide (j = k) := by
  have hbit := getLsbD_twoPow (w := 8) j k
  rw [twoPow_eq] at hbit
  simp [hbit, hj]

lemma and_bit_eq_zero (hj : j < 8) : byte &&& 1#8 <<< j = 0#8 ↔ byte.getLsbD j = false := by
  constructor
  · intro hzero
    have hbit : (byte &&& 1#8 <<< j).getLsbD j = false := by rw [hzero, getLsbD_zero]
    simpa [getLsbD_and, getLsbD_bit hj] using hbit
  · intro hbit
    refine eq_of_getLsbD_eq fun k _ => ?_
    rw [getLsbD_and, getLsbD_bit hj, getLsbD_zero]
    by_cases hjk : j = k
    · rw [← hjk, hbit, Bool.false_and]
    · simp [hjk]

lemma test_eq (h : k < 8 * b.array.length) : b.test k = some (bitAt b.array k) := by
  have hindex : k / 8 < b.array.length := by omega
  have hbit : b.array[k / 8] &&& 1#8 <<< (k % 8) = 0#8 ↔ b.array[k / 8].getLsbD (k % 8) = false :=
    and_bit_eq_zero (Nat.mod_lt k (by decide))
  simp [test, bitAt, hindex, getD_eq_getElem?_getD, hbit]

lemma bitAt_modify {f : BitVec 8 → BitVec 8} {v : Bool} (hbit : bit < 8 * array.length)
    (hf : ∀ byte j, j < 8 → (f byte).getLsbD j = if j = bit % 8 then v else byte.getLsbD j) :
    bitAt (array.modify (bit / 8) f) k = if k = bit then v else bitAt array k := by
  have hindex : bit / 8 < array.length := by omega
  have hk : k % 8 < 8 := Nat.mod_lt k (by decide)
  by_cases hbyte : bit / 8 = k / 8
  · have hsame : k % 8 = bit % 8 ↔ k = bit := by omega
    simp [bitAt, getD_eq_getElem?_getD, ← hbyte, hindex, hf _ _ hk, hsame]
  · have hne : k ≠ bit := fun h => hbyte (by rw [h])
    simp [bitAt, getD_eq_getElem?_getD, hbyte, hne]

lemma bitAt_set (hbit : bit < 8 * b.array.length) :
    bitAt (b.set bit).array k = if k = bit then true else bitAt b.array k := by
  refine bitAt_modify hbit fun byte j hj => ?_
  rw [getLsbD_or, getLsbD_bit (Nat.mod_lt bit (by decide))]
  by_cases h : j = bit % 8
  · simp [h]
  · simp [h, Ne.symm h]

lemma bitAt_clear (hbit : bit < 8 * b.array.length) :
    bitAt (b.clear bit).array k = if k = bit then false else bitAt b.array k := by
  refine bitAt_modify hbit fun byte j hj => ?_
  rw [getLsbD_and, getLsbD_not, getLsbD_bit (Nat.mod_lt bit (by decide))]
  by_cases h : j = bit % 8
  · simp [h]
  · simp [h, Ne.symm h, hj]

end Bits

/-! ## The search -/

/-- `answer` is the first clear bit of `bits` below `n`, or all ones when there is none. -/
def IsFirstClear (bits : Nat → Bool) (n answer : Nat) : Prop :=
  (answer < n ∧ bits answer = false ∧ ∀ k < answer, bits k = true) ∨
    ((∀ k < n, bits k = true) ∧ answer = 2 ^ 64 - 1)

/-- Up to what bit the search goes makes no difference as long as there is a clear bit to find. -/
lemma isFirstClear_iff {bits : Nat → Bool} {n total answer : Nat} (htotal : n ≤ total)
    (hn : n < 2 ^ 64 - 1) (hfill : n < total → bits n = false)
    (h : IsFirstClear bits total answer) :
    IsFirstClear bits n answer ↔ n = total ∨ ∃ k < n, bits k = false := by
  constructor
  · rintro (⟨hlt, hclear, _⟩ | ⟨hall, hones⟩)
    · exact .inr ⟨answer, hlt, hclear⟩
    · refine .inl (Nat.le_antisymm htotal (Nat.le_of_not_lt fun hlt => ?_))
      -- the first bit of the filling is clear, so the search ended there
      rcases h with ⟨_, _, hbelow⟩ | ⟨hall', _⟩
      · exact absurd (hbelow n (by omega)) (by simp [hfill hlt])
      · exact absurd (hall' n hlt) (by simp [hfill hlt])
  · rintro (rfl | ⟨k, hk, hclear⟩)
    · exact h
    · rcases h with ⟨_, hanswer, hbelow⟩ | ⟨hall, _⟩
      · refine .inl ⟨Nat.lt_of_le_of_lt (Nat.le_of_not_lt fun hlt => ?_) hk, hanswer, hbelow⟩
        exact absurd (hbelow k hlt) (by simp [hclear])
      · exact absurd (hall k (Nat.lt_of_lt_of_le hk htotal)) (by simp [hclear])

section Search

variable {array : List (BitVec 8)} {byte : BitVec 8} {b : Bitmap} {j k : Nat}

lemma bitAt_cons_of_lt (hk : k < 8) : bitAt (byte :: array) k = byte.getLsbD k := by
  rw [bitAt, Nat.div_eq_of_lt hk, Nat.mod_eq_of_lt hk]
  rfl

lemma bitAt_cons_add : bitAt (byte :: array) (k + 8) = bitAt array k := by
  rw [bitAt, bitAt, Nat.add_div_right k (by decide), Nat.add_mod_right]
  rfl

/-- The inner loop.  A full byte has no clear bit, so the test before it only saves time. -/
lemma freeBitFrom_cons (byte : BitVec 8) (array : List (BitVec 8)) (i : Nat) :
    (∃ j < 8, byte.getLsbD j = false ∧ (∀ l < j, byte.getLsbD l = true) ∧
      freeBitFrom i (byte :: array) = some (i * 8 + j)) ∨
    ((∀ l < 8, byte.getLsbD l = true) ∧
      freeBitFrom i (byte :: array) = freeBitFrom (i + 1) array) := by
  have hset : ∀ {j}, j < 8 → (!decide (byte &&& 1#8 <<< j = 0#8)) = true → byte.getLsbD j = true := by
    intro j hj h
    simpa [and_bit_eq_zero hj] using h
  cases hfind : (List.range 8).find? fun j => decide (byte &&& 1#8 <<< j = 0#8) with
  | none =>
    have hall := List.find?_range_eq_none.1 hfind
    exact .inr ⟨fun l hl => hset hl (hall l hl), by simp [freeBitFrom, hfind]⟩
  | some j =>
    rcases List.find?_range_eq_some.1 hfind with ⟨hclear, hj, hbelow⟩
    have hj8 : j < 8 := mem_range.1 hj
    have hbit : byte.getLsbD j = false := (and_bit_eq_zero hj8).1 (of_decide_eq_true hclear)
    have hfull : byte ≠ 0xFF#8 := by
      rintro rfl
      rw [show 0xFF#8 = BitVec.allOnes 8 from rfl, getLsbD_allOnes] at hbit
      exact of_decide_eq_false hbit hj8
    exact .inl ⟨j, hj8, hbit, fun l hl => hset (Nat.lt_trans hl hj8) (hbelow l hl),
      by simp [freeBitFrom, hfind, hfull]⟩

/-- The first free bit, if there is one. -/
lemma freeBitFrom_spec : ∀ (array : List (BitVec 8)) (i : Nat),
    (∃ k < 8 * array.length, bitAt array k = false ∧ (∀ l < k, bitAt array l = true) ∧
      freeBitFrom i array = some (i * 8 + k)) ∨
    ((∀ k < 8 * array.length, bitAt array k = true) ∧ freeBitFrom i array = none) := by
  intro array
  induction array with
  | nil => exact fun i => .inr ⟨fun k hk => absurd hk (Nat.not_lt_zero k), rfl⟩
  | cons byte array ih =>
    intro i
    rw [length_cons]
    rcases freeBitFrom_cons byte array i with ⟨j, hj, hclear, hbelow, hfree⟩ | ⟨hfull, hfree⟩
    · refine .inl ⟨j, by omega, (bitAt_cons_of_lt hj).trans hclear, fun l hl => ?_, hfree⟩
      exact (bitAt_cons_of_lt (Nat.lt_trans hl hj)).trans (hbelow l hl)
    · -- the first byte has no clear bit: the answer is that of the rest, eight bits further
      have hbits : ∀ {n : Nat}, (∀ l < n, bitAt array l = true) →
          ∀ l < n + 8, bitAt (byte :: array) l = true := by
        intro n hn l hl
        by_cases hl8 : l < 8
        · exact (bitAt_cons_of_lt hl8).trans (hfull l hl8)
        · rw [show l = l - 8 + 8 by omega, bitAt_cons_add]
          exact hn (l - 8) (by omega)
      rw [hfree]
      rcases ih (i + 1) with ⟨k, hk, hclear, hbelow, hrest⟩ | ⟨hall, hrest⟩
      · refine .inl ⟨k + 8, by omega, bitAt_cons_add.trans hclear, hbits hbelow, ?_⟩
        rw [hrest, Nat.succ_mul, Nat.add_assoc, Nat.add_comm 8 k]
      · exact .inr ⟨fun l hl => hbits hall l (by omega), hrest⟩

lemma getFreeBit_isFirstClear (b : Bitmap) :
    IsFirstClear (bitAt b.array) (8 * b.array.length) b.getFreeBit := by
  rcases freeBitFrom_spec b.array 0 with ⟨k, hk, hclear, hbelow, hfree⟩ | ⟨hall, hfree⟩
  · have hanswer : b.getFreeBit = k := by simp [getFreeBit, hfree]
    rw [hanswer]
    exact .inl ⟨hk, hclear, hbelow⟩
  · exact .inr ⟨hall, by simp [getFreeBit, hfree]⟩

end Search

/-! ## Sequences of calls -/

/-- What a call does to the set of the bits that are set. -/
def Call.update (bits : Finset Nat) : Call → Finset Nat
  | .set bit => insert bit bits
  | .clear bit => bits.erase bit

def held (calls : List Call) : Finset Nat :=
  calls.foldl Call.update ∅

section Calls

variable {b : Bitmap} {bits : Finset Nat} {calls : List Call}

lemma length_call {c : Call} : (b.call c).array.length = b.array.length := by
  cases c with
  | set bit => exact length_modify _ _ _
  | clear bit => exact length_modify _ _ _

lemma length_foldl : (calls.foldl call b).array.length = b.array.length := by
  induction calls generalizing b with
  | nil => rfl
  | cons c calls ih => exact ih.trans length_call

/-- One call changes the bits as it changes the set. -/
lemma bitAt_call {c : Call} (hbit : c.bit < 8 * b.array.length)
    (h : ∀ k, bitAt b.array k = decide (k ∈ bits)) (k : Nat) :
    bitAt (b.call c).array k = decide (k ∈ c.update bits) := by
  cases c with
  | set bit =>
    refine (bitAt_set hbit).trans ?_
    by_cases hk : k = bit
    · simp [Call.bit, Call.update, hk]
    · simp [Call.bit, Call.update, hk, h]
  | clear bit =>
    refine (bitAt_clear hbit).trans ?_
    by_cases hk : k = bit
    · simp [Call.bit, Call.update, hk]
    · simp [Call.bit, Call.update, hk, h]

lemma bitAt_foldl (hcalls : ∀ c ∈ calls, c.bit < 8 * b.array.length)
    (h : ∀ k, bitAt b.array k = decide (k ∈ bits)) :
    ∀ k, bitAt (calls.foldl call b).array k = decide (k ∈ calls.foldl Call.update bits) := by
  induction calls generalizing b bits with
  | nil => exact h
  | cons c calls ih =>
    refine ih (fun d hd => ?_) (bitAt_call (hcalls c mem_cons_self) h)
    rw [length_call]
    exact hcalls d (mem_cons_of_mem c hd)

lemma mem_foldl_update {k : Nat} (h : k ∈ calls.foldl Call.update bits) :
    k ∈ bits ∨ ∃ c ∈ calls, c.bit = k := by
  induction calls generalizing bits with
  | nil => exact .inl h
  | cons c calls ih =>
    rcases ih h with hin | ⟨d, hd, hk⟩
    · cases c with
      | set bit =>
        rcases Finset.mem_insert.1 hin with rfl | hin'
        · exact .inr ⟨_, mem_cons_self, rfl⟩
        · exact .inl hin'
      | clear bit => exact .inl (Finset.mem_of_mem_erase hin)
    · exact .inr ⟨d, mem_cons_of_mem c hd, hk⟩

lemma bitAt_cleared (nBytes : BitVec 64) (k : Nat) : bitAt (cleared nBytes).array k = false := by
  by_cases hk : k / 8 < nBytes.toNat
  · simp [bitAt, cleared, hk]
  · simp [bitAt, cleared, hk]

end Calls

/-- The bytes are enough for the bits unless the sum wraps around, and then there is none. -/
lemma toNat_divCeil (n : BitVec 64) :
    (divCeil n 8#64).toNat = if n.toNat ≤ 2 ^ 64 - 8 then (n.toNat + 7) / 8 else 0 := by
  rw [divCeil_toNat]
  show (n.toNat + 7) % 2 ^ 64 / 8 = _
  by_cases hfits : n.toNat ≤ 2 ^ 64 - 8
  · rw [if_pos hfits, Nat.mod_eq_of_lt (by omega)]
  · rw [if_neg hfits]
    omega

/-- For both classes, all sizes and all sequences of `set` and `clear` on bits of the bitmap: `test` and
`get_free_bit` are right exactly if the sum in `div_ceil` does not wrap around and, where the last byte
is not full, one of the bits is clear. -/
theorem bitmap_right_iff (new : BitVec 64 → Bitmap) (hnew : new = kernel ∨ new = driver)
    (n : BitVec 64) (hn : 1 ≤ n.toNat) (calls : List Call) (hcalls : ∀ c ∈ calls, c.bit < n.toNat) :
    ((∀ k < n.toNat, (calls.foldl call (new n)).test k = some (decide (k ∈ held calls))) ∧
      IsFirstClear (fun k => decide (k ∈ held calls)) n.toNat
        (calls.foldl call (new n)).getFreeBit) ↔
      n.toNat ≤ 2 ^ 64 - 8 ∧ (8 ∣ n.toNat ∨ ∃ k < n.toNat, k ∉ held calls) := by
  have hcleared : new n = cleared (divCeil n 8#64) := by
    rcases hnew with rfl | rfl
    · rfl
    · rfl
  have hbytes := toNat_divCeil n
  have hlength : (calls.foldl call (cleared (divCeil n 8#64))).array.length =
      (divCeil n 8#64).toNat :=
    length_foldl.trans List.length_replicate
  rw [hcleared]
  by_cases hfits : n.toNat ≤ 2 ^ 64 - 8
  · rw [if_pos hfits] at hbytes
    have hcalls' : ∀ c ∈ calls, c.bit < 8 * (cleared (divCeil n 8#64)).array.length := by
      intro c hc
      have hbit := hcalls c hc
      rw [← length_foldl, hlength, hbytes]
      omega
    have hbits : ∀ k, bitAt (calls.foldl call (cleared (divCeil n 8#64))).array k =
        decide (k ∈ held calls) :=
      bitAt_foldl hcalls' (by simp [bitAt_cleared])
    have hfill : n.toNat ∉ held calls := by
      intro hin
      rcases mem_foldl_update hin with hempty | ⟨c, hc, hbit⟩
      · exact absurd hempty (Finset.notMem_empty _)
      · exact absurd hbit (Nat.ne_of_lt (hcalls c hc))
    have hfree := getFreeBit_isFirstClear (calls.foldl call (cleared (divCeil n 8#64)))
    rw [funext hbits, hlength, hbytes] at hfree
    rw [isFirstClear_iff (by omega) (by omega) (fun _ => by simp [hfill]) hfree]
    have hdvd : n.toNat = 8 * ((n.toNat + 7) / 8) ↔ 8 ∣ n.toNat := by omega
    simp only [hdvd, decide_eq_false_iff_not]
    refine and_congr_left fun _ => iff_of_true (fun k hk => ?_) hfits
    rw [test_eq (by omega), hbits]
  · rw [if_neg hfits] at hbytes
    have hnone : (calls.foldl call (cleared (divCeil n 8#64))).array = [] :=
      List.length_eq_zero_iff.1 (hlength.trans hbytes)
    refine iff_of_false (fun h => ?_) fun h => hfits h.1
    have htest := h.1 0 hn
    simp [test, hnone] at htest

/-- One bit that was set and cleared, and a bitmap that ends with a full byte. -/
theorem bitmap_right_iff_sample :
    IsFirstClear (fun k => decide (k ∈ held [.set 0, .clear 0])) 8
      ([.set 0, .clear 0].foldl call (kernel 8#64)).getFreeBit :=
  ((bitmap_right_iff kernel (Or.inl rfl) 8#64 (by decide) [.set 0, .clear 0] (by decide)).2
    ⟨by decide, Or.inl (by decide)⟩).2

/-- With the only bit of a bitmap set, the answer is a bit that it does not have. -/
theorem getFreeBit_outside :
    ([Call.set 0].foldl call (kernel 1#64)).getFreeBit = 1 ∧
      ([Call.set 0].foldl call (driver 1#64)).getFreeBit = 1 ∧
      ¬ IsFirstClear (fun k => decide (k ∈ held [.set 0])) 1 1 := by
  refine ⟨by decide, by decide, ?_⟩
  rintro (⟨hlt, _⟩ | ⟨_, hones⟩)
  · exact absurd hlt (by decide)
  · exact absurd hones (by decide)

end Bitmap

end SigmaOS.Types
