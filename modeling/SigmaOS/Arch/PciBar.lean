import Mathlib.Algebra.Group.Nat.Defs
import SigmaOS.Arch.Pci
import SigmaOS.Lib.Records

/-!
# Arch.PciBar — measuring base address registers

`read_bar` writes all ones to a register, reads back which bits took them, and writes the old value
again.  `Pci.readBar` has the answer; here the registers are there too: `Bars.readBar` is what the
function does to them, and `Bars.scan` the loop of `enumerate_function`.

`Layout` is a base address register as the PCI specification has it, and `Implements` says that the
registers of a device hold one.
-/

namespace SigmaOS.Arch.Pci

open BitVec

/-! ## Registers -/

structure Dword where
  value : BitVec 32
  mask : BitVec 32
  deriving DecidableEq, Repr

def Dword.write (d : Dword) (v : BitVec 32) : Dword :=
  { d with value := (d.value &&& ~~~d.mask) ||| (v &&& d.mask) }

abbrev Bars := Nat → Dword

namespace Bars

def config (bars : Bars) : ConfigSpace where
  read _ offset _ := (bars ((offset.toNat - 0x10) / 4)).value
  sized _ number := ((bars number).write 0xFFFFFFFF#32).value

/-- `read_bar`.  For prefetchable memory a bit is set in `bar`, which is then written back. -/
def readBar (bars : Bars) (a : Address) (number : Nat) : Bars × Bar :=
  if number > 5 then
    (bars, Pci.readBar bars.config a number)
  else
    let bar := (bars number).value
    let back := if bar.getLsbD 0 = false ∧ bar.getLsbD 3 = true then bar ||| 1#32 else bar
    (Function.update bars number (((bars number).write 0xFFFFFFFF#32).write back),
      Pci.readBar bars.config a number)

def scan (bars : Bars) (a : Address) : Nat → Bars × List Bar
  | 0 => (bars, [])
  | n + 1 =>
    let next := (scan bars a n).1.readBar a n
    (next.1, (scan bars a n).2 ++ [next.2])

lemma scan_fst_of_le (bars : Bars) (a : Address) {n i : Nat} (h : n ≤ i) :
    (bars.scan a n).1 i = bars i := by
  induction n with
  | zero => rfl
  | succ n ih =>
    rw [← ih (Nat.le_of_succ_le h), scan, readBar]
    split
    · rfl
    · exact Function.update_of_ne (Nat.ne_of_gt h) _ _

lemma config_read (bars : Bars) (a : Address) {number : Nat} (h : number ≤ 6) :
    bars.config.read a (BitVec.ofNat 16 (0x10 + number * 4)) 4 = (bars number).value := by
  have hindex : ((BitVec.ofNat 16 (0x10 + number * 4)).toNat - 0x10) / 4 = number := by
    rw [toNat_ofNat, Nat.mod_eq_of_lt (by omega)]
    omega
  show (bars _).value = _
  rw [hindex]

lemma config_read_next (bars : Bars) (a : Address) {number : Nat} (h : number ≤ 5) :
    bars.config.read a (BitVec.ofNat 16 (0x10 + number * 4) + 4#16) 4 = (bars (number + 1)).value := by
  rw [← config_read bars a (Nat.succ_le_succ h), ← ofNat_add]
  congr 2
  omega

lemma readBar_congr {bars bars' : Bars} (a : Address) {number : Nat}
    (h : bars number = bars' number) (hnext : bars (number + 1) = bars' (number + 1)) :
    Pci.readBar bars.config a number = Pci.readBar bars'.config a number := by
  unfold Pci.readBar
  by_cases hnumber : number > 5
  · simp only [if_pos hnumber]
  · have hle : number ≤ 5 := Nat.not_lt.1 hnumber
    have hsized : bars.config.sized a number = bars'.config.sized a number := by
      simp only [config, h]
    simp only [config_read _ a (Nat.le_succ_of_le hle), config_read_next _ a hle, h, hnext, hsized]

lemma readBar_snd (bars : Bars) (a : Address) (number : Nat) :
    (bars.readBar a number).2 = Pci.readBar bars.config a number := by
  unfold readBar
  split <;> rfl

lemma scan_snd (bars : Bars) (a : Address) (n : Nat) :
    (bars.scan a n).2 = (List.range n).map (Pci.readBar bars.config a) := by
  induction n with
  | zero => rfl
  | succ n ih =>
    have hanswer : ((bars.scan a n).1.readBar a n).2 = Pci.readBar bars.config a n := by
      calc ((bars.scan a n).1.readBar a n).2
          = Pci.readBar (bars.scan a n).1.config a n := readBar_snd ..
        _ = Pci.readBar bars.config a n :=
            readBar_congr a (scan_fst_of_le bars a (Nat.le_refl n))
              (scan_fst_of_le bars a (Nat.le_succ n))
    rw [scan, ih, hanswer, List.range_succ, List.map_append, List.map_singleton]

end Bars

/-! ## Layouts -/

/-- A base address register of `2 ^ k` bytes; an I/O register that is `narrow` has no upper half. -/
inductive Layout where
  | mem32 (k : Nat) (prefetchable : Bool)
  | mem64 (k : Nat) (prefetchable : Bool)
  | io (k : Nat) (narrow : Bool)
  deriving DecidableEq, Repr

namespace Layout

def exponent : Layout → Nat
  | mem32 k _ => k
  | mem64 k _ => k
  | io k _ => k

def size (l : Layout) : Nat :=
  2 ^ l.exponent

def type : Layout → BarType
  | mem32 _ _ => .mem
  | mem64 _ _ => .mem
  | io _ _ => .io

def dwords : Layout → Nat
  | mem64 _ _ => 2
  | _ => 1

def Valid : Layout → Prop
  | mem32 k _ => 4 ≤ k ∧ k < 32
  | mem64 k _ => 4 ≤ k ∧ k ≤ 63
  | io k _ => 2 ≤ k ∧ k ≤ 15

def width : Layout → Nat
  | mem32 _ _ => 32
  | mem64 _ _ => 64
  | io _ narrow => if narrow then 16 else 32

def flags : Layout → BitVec 32
  | mem32 _ prefetchable => if prefetchable then 0x8#32 else 0x0#32
  | mem64 _ prefetchable => if prefetchable then 0xC#32 else 0x4#32
  | io _ _ => 0x1#32

/-- How many bits of the register are flags, and the bits that `read_bar` cuts off. -/
def flagBits : Layout → Nat
  | mem32 _ _ => 4
  | mem64 _ _ => 4
  | io _ _ => 2

def cut (l : Layout) : BitVec 32 :=
  (BitVec.allOnes l.flagBits).setWidth 32

def mask : Layout → BitVec 32
  | io k true => BitVec.allOnes 32 <<< k &&& 0xFFFF#32
  | l => BitVec.allOnes 32 <<< l.exponent

end Layout

/-- The registers of a device hold, from `number` on, a register of the layout with a base. -/
structure Implements (bars : Bars) (number : Nat) (l : Layout) (base : BitVec 64) : Prop where
  valid : l.Valid
  aligned : l.size ∣ base.toNat
  inWidth : base.toNat < 2 ^ l.width
  low : bars number = ⟨base.setWidth 32 ||| l.flags, l.mask⟩
  high : l.dwords = 2 →
    bars (number + 1) = ⟨(base >>> 32).setWidth 32, BitVec.allOnes 32 <<< (l.exponent - 32)⟩

def Exact (r : Bar) (l : Layout) (base : BitVec 64) : Prop :=
  r.type = l.type ∧ r.base = base ∧ r.len.toNat = l.size

lemma getLsbD_of_aligned {base : BitVec 64} {k i : Nat} (h : 2 ^ k ∣ base.toNat) (hi : i < k) :
    base.getLsbD i = false := by
  obtain ⟨q, hq⟩ := h
  rw [BitVec.getLsbD, hq, Nat.testBit_two_pow_mul, decide_eq_false (Nat.not_le.2 hi), Bool.false_and]

lemma and_not_eq_self {x c : BitVec 32} (h : x &&& c = 0#32) : x &&& ~~~c = x := by
  calc x &&& ~~~c
      = (x &&& c) ||| (x &&& ~~~c) := by rw [h, zero_or]
    _ = x &&& (c ||| ~~~c) := BitVec.and_or_distrib_left.symm
    _ = x := by rw [or_not_self, and_allOnes]

lemma Dword.write_ones (d : Dword) (cut : BitVec 32) (hmask : d.mask &&& cut = 0#32)
    (hvalue : d.value &&& ~~~d.mask &&& ~~~cut = 0#32) :
    (d.write 0xFFFFFFFF#32).value &&& ~~~cut = d.mask := by
  have hones : 0xFFFFFFFF#32 &&& d.mask = d.mask := allOnes_and
  simp only [Dword.write, and_or_distrib_right, hvalue, hones, and_not_eq_self hmask,
    zero_or]

lemma Dword.write_back (d : Dword) (ones back : BitVec 32)
    (h : back &&& d.mask = d.value &&& d.mask) : (d.write ones).write back = d := by
  have hvalue : ((d.value &&& ~~~d.mask ||| ones &&& d.mask) &&& ~~~d.mask) ||| (back &&& d.mask) =
      d.value := by
    rw [h]
    ext i hi
    simp only [getElem_or, getElem_and, getElem_not]
    cases d.mask[i] <;> simp
  cases d
  simp only [Dword.write, Dword.mk.injEq, and_true]
  exact hvalue

lemma size_of_mask (k : Nat) : ~~~(BitVec.allOnes 32 <<< k) + 1#32 = 1#32 <<< k := by
  rw [← neg_eq_not_add, ← neg_one_eq_allOnes, shiftLeft_neg, neg_neg]

namespace Implements

variable {bars : Bars} {number : Nat} {l : Layout} {base : BitVec 64}

variable {i k : Nat} {prefetchable : Bool}

lemma getLsbD_ones (k : Nat) (hi : i < 32) :
    (BitVec.allOnes 32 <<< k).getLsbD i = true ↔ k ≤ i := by
  rw [getLsbD_shiftLeft, getLsbD_allOnes, decide_eq_true hi,
    decide_eq_true (Nat.lt_of_le_of_lt (Nat.sub_le i k) hi), Bool.true_and, Bool.and_true,
    ← decide_not, decide_eq_true_iff, Nat.not_lt]

lemma getLsbD_mask (l : Layout) (hi : i < 32) :
    l.mask.getLsbD i = true ↔ l.exponent ≤ i ∧ i < l.width := by
  have hnarrow : (0xFFFF#32).getLsbD i = true ↔ i < 16 := by
    rw [show 0xFFFF#32 = (BitVec.allOnes 16).setWidth 32 from rfl, getLsbD_setWidth,
      getLsbD_allOnes, decide_eq_true hi, Bool.true_and, decide_eq_true_iff]
  cases l with
  | mem32 k prefetchable => exact (getLsbD_ones k hi).trans (and_iff_left hi).symm
  | mem64 k prefetchable =>
    have hwide : i < 64 := Nat.lt_trans hi (by decide)
    exact (getLsbD_ones k hi).trans (and_iff_left hwide).symm
  | io k narrow =>
    cases narrow with
    | true =>
      rw [Layout.mask, getLsbD_and, Bool.and_eq_true, getLsbD_ones k hi, hnarrow]
      rfl
    | false => exact (getLsbD_ones k hi).trans (and_iff_left hi).symm

/-- The address in a register has none of the bits that size it. -/
lemma address_mask (h : Implements bars number l base) :
    base.setWidth 32 &&& ~~~l.mask = 0#32 := by
  ext i hi
  rw [getElem_and, getElem_not, getElem_zero, ← getLsbD_eq_getElem,
    ← getLsbD_eq_getElem, getLsbD_setWidth, decide_eq_true hi, Bool.true_and]
  cases hbit : base.getLsbD i with
  | false => rfl
  | true =>
    have hlow : l.exponent ≤ i := by
      by_contra hlt
      rw [getLsbD_of_aligned h.aligned (Nat.not_le.1 hlt)] at hbit
      cases hbit
    have hwidth : i < l.width := by
      by_contra hge
      have hsmall : base.toNat < 2 ^ i :=
        Nat.lt_of_lt_of_le h.inWidth (Nat.pow_le_pow_right (by decide) (Nat.not_lt.1 hge))
      rw [BitVec.getLsbD, Nat.testBit_lt_two_pow hsmall] at hbit
      cases hbit
    rw [(getLsbD_mask l hi).2 ⟨hlow, hwidth⟩]
    rfl

lemma mask_cut (h : Implements bars number l base) : l.mask &&& l.cut = 0#32 := by
  have hflags : l.flagBits ≤ l.exponent := by
    have hvalid := h.valid
    cases l <;> exact hvalid.1
  ext i hi
  rw [getElem_and, getElem_zero, ← getLsbD_eq_getElem, ← getLsbD_eq_getElem,
    Layout.cut, getLsbD_setWidth, getLsbD_allOnes, decide_eq_true hi, Bool.true_and]
  cases hbit : l.mask.getLsbD i with
  | false => rfl
  | true =>
    have hlow := ((getLsbD_mask l hi).1 hbit).1
    rw [decide_eq_false (Nat.not_lt.2 (Nat.le_trans hflags hlow)), Bool.and_false]

lemma address_cut (h : Implements bars number l base) : base.setWidth 32 &&& l.cut = 0#32 := by
  have hkept : base.setWidth 32 &&& l.mask = base.setWidth 32 := by
    simpa using and_not_eq_self h.address_mask
  rw [← hkept, BitVec.and_assoc, h.mask_cut, BitVec.and_zero]

lemma flags_cut (l : Layout) : l.flags &&& ~~~l.cut = 0#32 := by
  cases l with
  | mem32 k prefetchable => cases prefetchable <;> simp [Layout.flags, Layout.cut, Layout.flagBits]
  | mem64 k prefetchable => cases prefetchable <;> simp [Layout.flags, Layout.cut, Layout.flagBits]
  | io k narrow => simp [Layout.flags, Layout.cut, Layout.flagBits]

section

variable (h : Implements bars number l base)
include h

lemma value_address : (bars number).value &&& ~~~l.cut = base.setWidth 32 := by
  rw [h.low, and_or_distrib_right, and_not_eq_self h.address_cut, flags_cut, or_zero]

lemma value_flags : (bars number).value &&& l.cut = l.flags := by
  have hflags := and_not_eq_self (flags_cut l)
  rw [BitVec.not_not] at hflags
  rw [h.low, BitVec.and_or_distrib_right, h.address_cut, hflags, BitVec.zero_or]

lemma sized_cut : ((bars number).write 0xFFFFFFFF#32).value &&& ~~~l.cut = l.mask := by
  rw [h.low]
  refine Dword.write_ones _ l.cut h.mask_cut ?_
  calc (base.setWidth 32 ||| l.flags) &&& ~~~l.mask &&& ~~~l.cut
      = l.flags &&& ~~~l.mask &&& ~~~l.cut := by
        rw [BitVec.and_or_distrib_right, h.address_mask, BitVec.zero_or]
    _ = l.flags &&& ~~~l.cut &&& ~~~l.mask := by
        rw [BitVec.and_assoc, BitVec.and_comm (~~~l.mask), ← BitVec.and_assoc]
    _ = 0#32 := by rw [flags_cut, BitVec.zero_and]

/-- After `read_bar` the registers are as before. -/
lemma readBar_fst (a : Address) : (bars.readBar a number).1 = bars := by
  unfold Bars.readBar
  split
  · rfl
  · have hbit : 1#32 &&& l.mask = 0#32 := by
      have hone : l.cut &&& 1#32 = 1#32 := by
        cases l <;> simp [Layout.cut, Layout.flagBits]
      rw [← hone, BitVec.and_comm, ← BitVec.and_assoc, h.mask_cut, BitVec.zero_and]
    have hmask : (bars number).mask = l.mask := by rw [h.low]
    -- the bit that is set in `bar` is one of the flags
    have hback : ∀ back, back = (bars number).value ||| 1#32 ∨ back = (bars number).value →
        ((bars number).write 0xFFFFFFFF#32).write back = bars number := by
      intro back hback
      apply Dword.write_back
      rw [hmask]
      rcases hback with rfl | rfl
      · rw [BitVec.and_or_distrib_right, hbit, BitVec.or_zero]
      · rfl
    dsimp only
    rw [hback, Function.update_eq_self]
    split
    · exact .inl rfl
    · exact .inr rfl

end

/-- What `readBar` reports of a register whose lowest bit marks an I/O BAR. -/
lemma readBar_io (a : Address) (hnumber : number ≤ 5)
    (hbit : (bars number).value.getLsbD 0 = true) :
    Pci.readBar bars.config a number =
      ⟨.io, BitVec.ofNat 8 number, 0#8,
        ((bars number).value &&& 0xFFFFFFFC#32 &&& 0xFFFF#32).setWidth 64,
        (~~~(((bars number).write 0xFFFFFFFF#32).value &&& ~~~0x3#32) + 1#32).setWidth 64 &&&
          0xFFFF#64⟩ := by
  unfold Pci.readBar
  rw [if_neg (Nat.not_lt.2 hnumber)]
  simp only [Bars.config_read bars a (Nat.le_succ_of_le hnumber), hbit, if_true, reduceCtorEq, false_and,
    if_false]
  rfl

def memBase (bar next : BitVec 32) : BitVec 64 :=
  if (bar >>> 1) &&& 0x3#32 = 0x0#32 then (bar &&& 0xFFFFFFF0#32).setWidth 64
  else if (bar >>> 1) &&& 0x3#32 = 0x2#32 then
    (bar &&& 0xFFFFFFF0#32).setWidth 64 ||| (next.setWidth 64 <<< 32)
  else 0#64

/-- What `readBar` reports of a memory BAR, in terms of the length it sized. -/
lemma readBar_mem (a : Address) (hnumber : number ≤ 5)
    (hbit : (bars number).value.getLsbD 0 = false) {len : BitVec 64}
    (hlen : (~~~(bars.config.sized a number &&& ~~~0xF#32) + 1#32).setWidth 64 = len) :
    Pci.readBar bars.config a number =
      ⟨if memBase (bars number).value (bars (number + 1)).value = 0#64 ∧ len = 0#64 then .invalid
        else .mem,
        BitVec.ofNat 8 number, 0#8, memBase (bars number).value (bars (number + 1)).value, len⟩ := by
  subst hlen
  unfold Pci.readBar
  rw [if_neg (Nat.not_lt.2 hnumber)]
  simp only [Bars.config_read bars a (Nat.le_succ_of_le hnumber), Bars.config_read_next bars a hnumber,
    hbit, Bool.false_eq_true, if_false, true_and]
  rw [← memBase]
  split <;> rfl

lemma toNat_size (k : Nat) : ((1#32 <<< k).setWidth 64).toNat = 2 ^ k % 2 ^ 32 := by
  rw [toNat_setWidth, toNat_shiftLeft, toNat_ofNat, Nat.shiftLeft_eq,
    Nat.mod_eq_of_lt (show 1 < 2 ^ 32 by decide), Nat.one_mul]
  exact Nat.mod_eq_of_lt (Nat.lt_trans (Nat.mod_lt _ (by decide)) (by decide))

lemma mem_length (h : Implements bars number l base) (a : Address) (hcut : l.cut = 0xF#32)
    (hmask : l.mask = BitVec.allOnes 32 <<< l.exponent) :
    (~~~(bars.config.sized a number &&& ~~~0xF#32) + 1#32).setWidth 64 =
      (1#32 <<< l.exponent).setWidth 64 := by
  have hsized : bars.config.sized a number &&& ~~~0xF#32 = l.mask := hcut ▸ h.sized_cut
  rw [hsized, hmask, size_of_mask]

lemma mem_kind (h : Implements bars number l base) (hcut : l.cut = 0xF#32) :
    (bars number).value.getLsbD 0 = l.flags.getLsbD 0 ∧
    ((bars number).value >>> 1) &&& 0x3#32 = (l.flags >>> 1) &&& 0x3#32 ∧
    (bars number).value &&& 0xFFFFFFF0#32 = base.setWidth 32 := by
  have hflags : (bars number).value &&& 0xF#32 = l.flags := hcut ▸ h.value_flags
  have haddress : (bars number).value &&& ~~~0xF#32 = base.setWidth 32 := hcut ▸ h.value_address
  refine ⟨?_, ?_, haddress⟩
  · rw [← hflags, BitVec.getLsbD_and, show (0xF#32).getLsbD 0 = true from rfl, Bool.and_true]
  · rw [← hflags, BitVec.ushiftRight_and_distrib, BitVec.and_assoc,
      show (0xF#32 >>> 1) &&& 0x3#32 = 0x3#32 from rfl]

/-- A memory BAR is reported exactly iff its size fits 32 bits. -/
lemma exact_mem_iff (h : Implements bars number l base) (a : Address) (hnumber : number ≤ 5)
    (hcut : l.cut = 0xF#32) (hmask : l.mask = BitVec.allOnes 32 <<< l.exponent)
    (htype : l.type = .mem) (hbit : l.flags.getLsbD 0 = false)
    (hbase : memBase (bars number).value (bars (number + 1)).value = base) :
    Exact (Pci.readBar bars.config a number) l base ↔ l.exponent < 32 := by
  have hlow : (bars number).value.getLsbD 0 = false := (h.mem_kind hcut).1.trans hbit
  have hlen := toNat_size l.exponent
  rw [readBar_mem a hnumber hlow (h.mem_length a hcut hmask), hbase, Exact, htype, Layout.size]
  constructor
  · rintro ⟨-, -, hsize⟩
    by_contra hge
    have hlarge : 2 ^ 32 ≤ 2 ^ l.exponent := Nat.pow_le_pow_right (by decide) (Nat.not_lt.1 hge)
    exact Nat.not_lt.2 hlarge (hsize ▸ Nat.mod_lt _ (by decide))
  · intro hlt
    rw [Nat.mod_eq_of_lt (Nat.pow_lt_pow_right (by decide) hlt)] at hlen
    refine ⟨if_neg ?_, rfl, hlen⟩
    rintro ⟨-, hzero⟩
    rw [hzero] at hlen
    exact absurd hlen (Nat.ne_of_lt (Nat.two_pow_pos _))

lemma setWidth_low {base : BitVec 64} (h : base.toNat < 2 ^ 32) :
    (base.setWidth 32).setWidth 64 = base := by
  apply eq_of_toNat_eq
  rw [toNat_setWidth, toNat_setWidth, Nat.mod_eq_of_lt h, Nat.mod_eq_of_lt base.isLt]

lemma exact_mem32_iff (h : Implements bars number (.mem32 k prefetchable) base) (a : Address)
    (hnumber : number ≤ 5) :
    Exact (Pci.readBar bars.config a number) (.mem32 k prefetchable) base ↔ k < 32 := by
  obtain ⟨-, hkind, haddress⟩ := h.mem_kind rfl
  have hflags : (Layout.mem32 k prefetchable).flags.getLsbD 0 = false ∧
      ((Layout.mem32 k prefetchable).flags >>> 1) &&& 0x3#32 = 0x0#32 := by
    cases prefetchable <;> simp [Layout.flags]
  refine h.exact_mem_iff a hnumber rfl rfl rfl hflags.1 ?_
  rw [memBase, hkind, hflags.2, if_pos rfl, haddress, setWidth_low h.inWidth]

lemma exact_mem64_iff (h : Implements bars number (.mem64 k prefetchable) base) (a : Address)
    (hnumber : number ≤ 5) :
    Exact (Pci.readBar bars.config a number) (.mem64 k prefetchable) base ↔ k < 32 := by
  obtain ⟨-, hkind, haddress⟩ := h.mem_kind rfl
  have hflags : (Layout.mem64 k prefetchable).flags.getLsbD 0 = false ∧
      ((Layout.mem64 k prefetchable).flags >>> 1) &&& 0x3#32 = 0x2#32 := by
    cases prefetchable <;> simp [Layout.flags]
  refine h.exact_mem_iff a hnumber rfl rfl rfl hflags.1 ?_
  rw [memBase, hkind, hflags.2, if_neg (by decide), if_pos rfl, haddress, h.high rfl]
  exact Lib.Records.join_halves base

lemma io_length (k : Fin 16) (narrow : Bool) :
    ((~~~(Layout.io k.val narrow).mask + 1#32).setWidth 64 &&& 0xFFFF#64).toNat = 2 ^ k.val := by
  revert k narrow
  decide

/-- An I/O range is reported exactly if its base has 16 bits. -/
lemma exact_io_iff {narrow : Bool} (h : Implements bars number (.io k narrow) base) (a : Address)
    (hnumber : number ≤ 5) :
    Exact (Pci.readBar bars.config a number) (.io k narrow) base ↔ base.toNat < 2 ^ 16 := by
  have hbit : (bars number).value.getLsbD 0 = true := by
    rw [h.low]
    simp [Layout.flags]
  have hsized : ((bars number).write 0xFFFFFFFF#32).value &&& ~~~0x3#32 = (Layout.io k narrow).mask :=
    h.sized_cut
  have haddress : (bars number).value &&& 0xFFFFFFFC#32 = base.setWidth 32 := by
    rw [show 0xFFFFFFFC#32 = ~~~0x3#32 from rfl]
    exact h.value_address
  have hwidth : base.toNat < 2 ^ 32 := by
    refine Nat.lt_of_lt_of_le h.inWidth (Nat.pow_le_pow_right (by decide) ?_)
    show (if narrow then 16 else 32) ≤ 32
    cases narrow <;> decide
  have hbase : ((base.setWidth 32 &&& 0xFFFF#32).setWidth 64).toNat = base.toNat % 2 ^ 16 := by
    rw [toNat_setWidth, toNat_and, toNat_setWidth, Nat.mod_eq_of_lt hwidth,
      show (0xFFFF#32).toNat = 2 ^ 16 - 1 from rfl, Nat.and_two_pow_sub_one_eq_mod]
    exact Nat.mod_eq_of_lt (Nat.lt_trans (Nat.mod_lt _ (by decide)) (by decide))
  have hk : k < 16 := Nat.lt_succ_of_le h.valid.2
  rw [readBar_io a hnumber hbit, haddress, hsized]
  constructor
  · rintro ⟨-, heq, -⟩
    have heq := congrArg BitVec.toNat heq
    rw [hbase] at heq
    exact heq ▸ Nat.mod_lt _ (by decide)
  · intro hlt
    refine ⟨rfl, eq_of_toNat_eq ?_, io_length ⟨k, hk⟩ narrow⟩
    rw [hbase, Nat.mod_eq_of_lt hlt]

/-- The upper half of a 64-bit register is taken for a register of its own. -/
lemma upper_reported (h : Implements bars number l base) (hwide : l.dwords = 2) (a : Address)
    (hnumber : number + 1 ≤ 5) : (Pci.readBar bars.config a (number + 1)).type ≠ .invalid := by
  cases hbit : (bars (number + 1)).value.getLsbD 0 with
  | true =>
    rw [readBar_io a hnumber hbit]
    exact fun hinvalid => BarType.noConfusion hinvalid
  | false =>
    rw [readBar_mem a hnumber hbit rfl]
    refine ne_of_eq_of_ne (if_neg ?_) (by decide)
    rintro ⟨-, hzero⟩
    have hexponent : l.exponent - 32 ≤ 31 := by
      have hvalid := h.valid
      cases l with
      | mem64 k prefetchable => exact Nat.sub_le_of_le_add hvalid.2
      | mem32 k prefetchable => cases hwide
      | io k narrow => cases hwide
    have htop : (bars.config.sized a (number + 1) &&& ~~~0xF#32).getLsbD 31 = true := by
      show (((bars (number + 1)).write 0xFFFFFFFF#32).value &&& ~~~0xF#32).getLsbD 31 = true
      rw [h.high hwide, Dword.write, getLsbD_and, getLsbD_or, getLsbD_and,
        getLsbD_and, (getLsbD_ones _ (by decide)).2 hexponent]
      simp
    have hneg : -(bars.config.sized a (number + 1) &&& ~~~0xF#32) = 0#32 := by
      apply eq_of_toNat_eq
      have hnat := congrArg BitVec.toNat hzero
      rw [← neg_eq_not_add, toNat_setWidth_of_le (by decide)] at hnat
      exact hnat
    rw [neg_eq_zero_iff.1 hneg] at htop
    cases htop

end Implements

/-- For every device, register of the specification and base: `read_bar` leaves the registers as they
were; it answers the type, base and size exactly when the size fits into a dword and an I/O base into 16
bits; and the scan reports no second dword exactly when there is none. -/
theorem readBar_exact_iff {bars : Bars} {number : Nat} {l : Layout} {base : BitVec 64}
    (h : Implements bars number l base) (a : Address) {n : Nat} (hn : n ≤ 6)
    (hfit : number + l.dwords ≤ n) :
    (bars.readBar a number).1 = bars ∧
    (Exact (bars.readBar a number).2 l base ↔
      l.exponent < 32 ∧ (l.type = .io → base.toNat < 2 ^ 16)) ∧
    ((l.dwords = 2 → ∀ r, (bars.scan a n).2[number + 1]? = some r → r.type = .invalid) ↔
      l.dwords ≠ 2) := by
  have hnumber : number + l.dwords ≤ 6 := Nat.le_trans hfit hn
  refine ⟨h.readBar_fst a, ?_, ?_⟩
  · rw [Bars.readBar_snd]
    cases l with
    | mem32 k prefetchable =>
      exact (h.exact_mem32_iff a (Nat.le_of_succ_le_succ hnumber)).trans
        (and_iff_left fun hio => BarType.noConfusion hio).symm
    | mem64 k prefetchable =>
      exact (h.exact_mem64_iff a (Nat.le_of_succ_le (Nat.le_of_succ_le_succ hnumber))).trans
        (and_iff_left fun hio => BarType.noConfusion hio).symm
    | io k narrow =>
      have hk : k < 32 := Nat.lt_of_le_of_lt h.valid.2 (by decide)
      rw [h.exact_io_iff a (Nat.le_of_succ_le_succ hnumber)]
      exact ⟨fun hlt => ⟨hk, fun _ => hlt⟩, fun hboth => hboth.2 rfl⟩
  · constructor
    · intro hhidden hwide
      rw [hwide] at hfit hnumber
      refine h.upper_reported hwide a (Nat.le_of_succ_le_succ hnumber) (hhidden hwide _ ?_)
      rw [Bars.scan_snd, List.getElem?_map, List.getElem?_range hfit]
      rfl
    · exact fun hnarrow hwide => absurd hwide hnarrow

def oneBar (l : Layout) (base : BitVec 64) : Bars := fun i =>
  if i = 0 then ⟨base.setWidth 32 ||| l.flags, l.mask⟩
  else if i = 1 ∧ l.dwords = 2 then
    ⟨(base >>> 32).setWidth 32, BitVec.allOnes 32 <<< (l.exponent - 32)⟩
  else ⟨0#32, 0#32⟩

lemma oneBar_implements {l : Layout} {base : BitVec 64} (hvalid : l.Valid)
    (haligned : l.size ∣ base.toNat) (hwidth : base.toNat < 2 ^ l.width) :
    Implements (oneBar l base) 0 l base := by
  refine ⟨hvalid, haligned, hwidth, rfl, fun hwide => ?_⟩
  simp [oneBar, hwide]

/-- A page of memory below 4 GiB is measured exactly. -/
theorem readBar_exact_page :
    Exact ((oneBar (.mem32 12 true) 0xFEBF1000#64).readBar ⟨0#16, 0#8, 3#8, 0#8⟩ 0).2
      (.mem32 12 true) 0xFEBF1000#64 :=
  have hvalid : (Layout.mem32 12 true).Valid := ⟨by decide, by decide⟩
  (readBar_exact_iff (oneBar_implements hvalid (by decide) (by decide))
    ⟨0#16, 0#8, 3#8, 0#8⟩ (Nat.le_refl 6) (by decide)).2.1.2 ⟨by decide, by decide⟩

/-- 16 KiB of 64-bit memory at 32 GiB: the scan reports the second dword, and leaves it changed.  4 GiB
of 64-bit memory at 0: the size is answered as 0 and the register as invalid.  An I/O register at 64 KiB:
the base is answered as 0. -/
theorem readBar_misreads :
    Implements (oneBar (.mem64 14 false) 0x800000000#64) 0 (.mem64 14 false) 0x800000000#64 ∧
    ((((oneBar (.mem64 14 false) 0x800000000#64).scan ⟨0#16, 0#8, 3#8, 0#8⟩ 6).2)[1]?).map Bar.type =
      some .mem ∧
    (((oneBar (.mem64 14 false) 0x800000000#64).scan ⟨0#16, 0#8, 3#8, 0#8⟩ 6).1 1).value = 0x9#32 ∧
    Implements (oneBar (.mem64 32 false) 0x0#64) 0 (.mem64 32 false) 0x0#64 ∧
    ((oneBar (.mem64 32 false) 0x0#64).readBar ⟨0#16, 0#8, 3#8, 0#8⟩ 0).2 =
      ⟨.invalid, 0#8, 0#8, 0#64, 0#64⟩ ∧
    Implements (oneBar (.io 5 false) 0x10000#64) 0 (.io 5 false) 0x10000#64 ∧
    ((oneBar (.io 5 false) 0x10000#64).readBar ⟨0#16, 0#8, 3#8, 0#8⟩ 0).2.base = 0x0#64 :=
  ⟨oneBar_implements ⟨by decide, by decide⟩ (by decide) (by decide), by decide, by decide,
    oneBar_implements ⟨by decide, by decide⟩ (by decide) (by decide), by decide,
    oneBar_implements ⟨by decide, by decide⟩ (by decide) (by decide), by decide⟩

end SigmaOS.Arch.Pci
