import Mathlib.Data.List.Induction
import SigmaOS.Lib.Numeral

/-!
# Klibc.Stdlib — `itoa` and `htoa`

A buffer is its list of characters.  A pointer that moves up through it while it writes is a split
of the list into what is written and the rest, and a write behind the end of the buffer is `none`.

`itoa` writes the digits from the last one on and turns them around in place.  The remainder of a
negative number is negative, and the table of digits is symmetric, so the number is never negated.
`htoa` goes through the 16 groups of four bits from the top; its counter `zeros` is 0 until the
first digit is written.
-/

namespace SigmaOS.Klibc

open Lib List

/-! ## `itoa` -/

def itoaTable : List Char :=
  "zyxwvutsrqponmlkjihgfedcba9876543210123456789abcdefghijklmnopqrstuvwxyz".toList

def putDigits (base value : Int) (written : List Char) : List Char → Option (List Char × List Char)
  | [] => none
  | _ :: rest =>
    let written := written ++ [itoaTable.getD (35 + value.tmod base).toNat '\x00']
    if value.tdiv base = 0 then some (written, rest) else putDigits base (value.tdiv base) written rest

def swapEnds (low ptr : Nat) (str : List Char) : List Char :=
  if low < ptr then
    swapEnds (low + 1) (ptr - 1)
      ((str.set low (str.getD ptr '\x00')).set ptr (str.getD low '\x00'))
  else str
termination_by ptr - low

/-- `itoa` from the first digit on, behind the sign. -/
def itoaDigits (value base : Int) (sign rest : List Char) : Option (List Char) :=
  match putDigits base value sign rest with
  | none => none
  | some (_, []) => none
  | some (written, _ :: rest) =>
    some (swapEnds sign.length (written.length - 1) (written ++ '\x00' :: rest))

def itoa (value : Int) (str : List Char) (base : Int) : Option (List Char) :=
  match str with
  | [] => none
  | _ :: rest =>
    if base < 2 ∨ base > 36 then some ('\x00' :: rest)
    else if value < 0 ∧ base = 10 then itoaDigits value base ['-'] rest
    else itoaDigits value base [] str

lemma itoaTable_eq : ∀ d : Fin 10, itoaTable.getD (35 + d) '\x00' = digitChar d ∧
    itoaTable.getD (35 - d) '\x00' = digitChar d := by
  decide

/-- The table is symmetric: it has the digit of the absolute value. -/
lemma itoaTable_tmod (value : Int) :
    itoaTable.getD (35 + value.tmod 10).toNat '\x00' = digitChar (value.natAbs % 10) := by
  have hlt : value.natAbs % 10 < 10 := Nat.mod_lt _ (by decide)
  have hdigit := itoaTable_eq ⟨value.natAbs % 10, hlt⟩
  have hmod : (value.natAbs : Int).tmod 10 = (value.natAbs % 10 : Nat) := rfl
  rcases Int.natAbs_eq value with hvalue | hvalue
  · have hindex : (35 + value.tmod 10).toNat = 35 + value.natAbs % 10 := by
      rw [hvalue, hmod, Int.natAbs_natCast]
      omega
    rw [hindex, hdigit.1]
  · have hindex : (35 + value.tmod 10).toNat = 35 - value.natAbs % 10 := by
      rw [hvalue, Int.neg_tmod, hmod, Int.natAbs_neg, Int.natAbs_natCast]
      omega
    rw [hindex, hdigit.2]

/-- The digit loop writes the numeral of the absolute value, reversed. -/
lemma putDigits_eq {rest : List Char} {value : Int} {written : List Char}
    (h : (numeral 10 value.natAbs).length ≤ rest.length) :
    putDigits 10 value written rest = some (written ++ (numeral 10 value.natAbs).reverse,
      rest.drop (numeral 10 value.natAbs).length) := by
  induction rest generalizing value written with
  | nil => exact absurd (length_eq_zero_iff.1 (Nat.le_zero.1 h)) numeral_ne_nil
  | cons c rest ih =>
    rw [putDigits, itoaTable_tmod]
    have hdiv : (value.tdiv 10).natAbs = value.natAbs / 10 := Int.natAbs_tdiv value 10
    by_cases hlast : value.natAbs < 10
    · have hzero : value.tdiv 10 = 0 := by omega
      simp [hzero, numeral_of_lt hlast, Nat.mod_eq_of_lt hlast]
    · have hnum := numeral_of_ge (by decide : 2 ≤ 10) (Nat.le_of_not_lt hlast)
      have hmore : value.tdiv 10 ≠ 0 := by omega
      rw [hnum, length_append, length_singleton, ← hdiv] at h
      have hrest := @ih (value.tdiv 10) (written ++ [digitChar (value.natAbs % 10)])
        (Nat.le_of_succ_le_succ h)
      simp [hmore, hrest, hnum, hdiv]

lemma swapEnds_of_le {low ptr : Nat} (h : ptr ≤ low) (str : List Char) :
    swapEnds low ptr str = str := by
  rw [swapEnds, if_neg (Nat.not_lt.2 h)]

/-- From the outside in: the loop swaps the two ends and goes on with what is between them. -/
lemma swapEnds_eq (s : List Char) : ∀ pre post : List Char,
    swapEnds pre.length (pre.length + s.length - 1) (pre ++ s ++ post) = pre ++ s.reverse ++ post := by
  induction s using List.bidirectionalRec with
  | nil => exact fun pre post => swapEnds_of_le (Nat.sub_le _ _) _
  | singleton c => exact fun pre post => swapEnds_of_le (Nat.le_refl _) _
  | cons_append a s b ih =>
    intro pre post
    have hlast : pre.length + (a :: (s ++ [b])).length - 1 = pre.length + (s.length + 1) := by simp
    have hswap : ((pre ++ a :: (s ++ [b]) ++ post).set pre.length
          ((pre ++ a :: (s ++ [b]) ++ post).getD (pre.length + (s.length + 1)) '\x00')).set
          (pre.length + (s.length + 1)) ((pre ++ a :: (s ++ [b]) ++ post).getD pre.length '\x00') =
        (pre ++ [b]) ++ s ++ a :: post := by
      simp
    have hinner := ih (pre ++ [b]) (a :: post)
    rw [length_append, length_singleton, Nat.add_right_comm, Nat.add_sub_cancel] at hinner
    rw [hlast, swapEnds, if_pos (by omega), hswap, ← Nat.add_assoc, Nat.add_sub_cancel, hinner]
    simp

/-- Digits, reversal and terminator behind a sign already written. -/
lemma itoaDigits_eq (value : Int) (sign : List Char) {rest : List Char}
    (h : (numeral 10 value.natAbs).length < rest.length) :
    ∃ rest', itoaDigits value 10 sign rest = some (sign ++ numeral 10 value.natAbs ++ '\x00' :: rest') ∧
      (sign ++ numeral 10 value.natAbs ++ '\x00' :: rest').length = sign.length + rest.length := by
  have hput := @putDigits_eq rest value sign (Nat.le_of_lt h)
  rw [drop_eq_getElem_cons h] at hput
  refine ⟨rest.drop ((numeral 10 value.natAbs).length + 1), ?_, ?_⟩
  · rw [itoaDigits, hput]
    have hswap := swapEnds_eq (numeral 10 value.natAbs).reverse sign
      ('\x00' :: rest.drop ((numeral 10 value.natAbs).length + 1))
    rw [reverse_reverse, ← length_append] at hswap
    exact congrArg some hswap
  · simp
    omega

/-- `itoa` writes sign, numeral and terminator, and leaves the length as it was. -/
lemma itoa_eq (value : Int) {str : List Char}
    (h : (numeral 10 value.natAbs).length + 2 ≤ str.length) :
    ∃ rest, itoa value str 10 = some ((if value < 0 then ['-'] else []) ++
        numeral 10 value.natAbs ++ '\x00' :: rest) ∧
      ((if value < 0 then ['-'] else []) ++ numeral 10 value.natAbs ++ '\x00' :: rest).length =
        str.length := by
  cases str with
  | nil => exact absurd h (Nat.not_succ_le_zero _)
  | cons c str =>
    rw [length_cons] at h
    by_cases hneg : value < 0
    · rcases itoaDigits_eq value ['-'] (show _ < str.length by omega) with ⟨rest, hcall, hlen⟩
      rw [if_pos hneg]
      exact ⟨rest, by simpa [itoa, hneg] using hcall, by rw [hlen]; exact Nat.add_comm 1 _⟩
    · have hroom : (numeral 10 value.natAbs).length < (c :: str).length := Nat.lt_succ_of_lt (by omega)
      rcases itoaDigits_eq value [] hroom with ⟨rest, hcall, hlen⟩
      rw [if_neg hneg]
      exact ⟨rest, by simpa [itoa, hneg] using hcall, by rw [hlen]; exact Nat.zero_add _⟩

/-! ## `htoa` -/

/-- The character that `htoa` writes for a group of four bits. -/
def hexChar (tmp : BitVec 64) : Char :=
  if (0xA#64).sle tmp then Char.ofNat (tmp - 0xA#64 + 97#64).toNat
  else Char.ofNat (tmp + 48#64).toNat

/-- One round: `zeros`, what is written and the rest of the buffer. -/
def htoaGroup (n : BitVec 64) (i : Nat) :
    BitVec 8 × List Char × List Char → Option (BitVec 8 × List Char × List Char)
  | (zeros, written, rest) =>
    let tmp := n.sshiftRight i &&& 0xF#64
    if tmp = 0#64 ∧ zeros = 0#8 then some (zeros, written, rest)
    else
      match rest with
      | [] => none
      | _ :: rest => some (zeros - 1#8, written ++ [hexChar tmp], rest)

/-- The rounds for `i = 4 * k` and below. -/
def htoaLoop (n : BitVec 64) :
    Nat → BitVec 8 × List Char × List Char → Option (BitVec 8 × List Char × List Char)
  | 0, s => some s
  | k + 1, s => (htoaGroup n (4 * (k + 1)) s).bind (htoaLoop n k)

def htoa (n : BitVec 64) (str : List Char) : Option (List Char) :=
  match str with
  | _ :: _ :: rest =>
    match htoaLoop n 15 (0#8, ['0', 'x'], rest) with
    | some (_, written, _ :: rest) => some (written ++ hexChar (n &&& 0xF#64) :: rest)
    | _ => none
  | _ => none

lemma hexChar_ofNat : ∀ d < 16, hexChar (BitVec.ofNat 64 d) = digitChar d := by
  decide

/-- The groups of a negative number are those of its bits: the sign is not shifted in far enough. -/
lemma group_eq (n : BitVec 64) {i : Nat} (hi : i ≤ 60) :
    n.sshiftRight i &&& 0xF#64 = BitVec.ofNat 64 (n.toNat / 2 ^ i % 16) := by
  refine BitVec.eq_of_getLsbD_eq fun j hj => ?_
  have hmask : (0xF#64).getLsbD j = decide (j < 4) := by
    rw [BitVec.getLsbD_ofNat, show 15 = 2 ^ 4 - 1 from rfl, Nat.testBit_two_pow_sub_one]
    simp [hj]
  rw [BitVec.getLsbD_and, BitVec.getLsbD_sshiftRight, hmask, BitVec.getLsbD_ofNat,
    show 16 = 2 ^ 4 from rfl, Nat.testBit_mod_two_pow, Nat.testBit_div_two_pow]
  by_cases hlow : j < 4
  · have hin : i + j < 64 := by omega
    simp [hlow, hj, hin, BitVec.getLsbD, Nat.add_comm]
  · simp [hlow]

def hexDigits (m : Nat) : List Char :=
  if m = 0 then [] else numeral 16 m

def htoaState (digits : List Char) : BitVec 8 × List Char × List Char :=
  (-BitVec.ofNat 8 digits.length, '0' :: 'x' :: digits, List.replicate (30 - digits.length) '\x00')

lemma hexDigits_length {m : Nat} (hm : m < 2 ^ 64) : (hexDigits m).length ≤ 16 := by
  by_cases hzero : m = 0
  · simp [hexDigits, hzero]
  · rw [hexDigits, if_neg hzero]
    exact length_numeral_le (by decide) hm

lemma hexDigits_snoc {q : Nat} (hq : q ≠ 0) :
    hexDigits q = hexDigits (q / 16) ++ [digitChar (q % 16)] := by
  by_cases hlt : q < 16
  · simp [hexDigits, hq, Nat.div_eq_of_lt hlt, Nat.mod_eq_of_lt hlt, numeral_of_lt hlt]
  · have hge : 16 ≤ q := Nat.le_of_not_lt hlt
    have hdiv : q / 16 ≠ 0 := by omega
    rw [hexDigits, hexDigits, if_neg hq, if_neg hdiv, numeral_of_ge (by decide) hge]

/-- One group of four bits adds one digit, but no zero in front. -/
lemma htoaGroup_eq {n : BitVec 64} {i : Nat} (hi : i ≤ 60) :
    htoaGroup n i (htoaState (hexDigits (n.toNat / 2 ^ i / 16))) =
      some (htoaState (hexDigits (n.toNat / 2 ^ i))) := by
  have hlt : n.toNat / 2 ^ i < 2 ^ 64 := Nat.lt_of_le_of_lt (Nat.div_le_self _ _) n.isLt
  have htmp := group_eq n hi
  generalize n.toNat / 2 ^ i = q at hlt htmp ⊢
  have hlen := hexDigits_length (m := q / 16) (by omega)
  simp only [htoaState, htoaGroup, htmp]
  by_cases hzero : q = 0
  · simp [hzero, hexDigits]
  · have hgo : ¬ (BitVec.ofNat 64 (q % 16) = 0#64 ∧
        -BitVec.ofNat 8 (hexDigits (q / 16)).length = 0#8) := by
      rintro ⟨hdigit, hnone⟩
      have hmod : q % 16 % 2 ^ 64 = 0 := by simpa using congrArg BitVec.toNat hdigit
      have hdigits := hexDigits_snoc (q := q / 16) (by omega)
      have hcount : (hexDigits (q / 16)).length % 256 = 0 := by
        simpa using congrArg BitVec.toNat (BitVec.neg_eq_zero_iff.1 hnone)
      rw [hdigits, length_append, length_singleton] at hcount hlen
      omega
    have hroom : 30 - (hexDigits (q / 16)).length = (29 - (hexDigits (q / 16)).length) + 1 := by omega
    rw [if_neg hgo, hroom, replicate_succ, hexChar_ofNat _ (Nat.mod_lt q (by decide)),
      hexDigits_snoc hzero, length_append, length_singleton, BitVec.ofNat_add, BitVec.neg_add]
    have hrest : 30 - ((hexDigits (q / 16)).length + 1) = 29 - (hexDigits (q / 16)).length := by omega
    rw [hrest]
    rfl

lemma htoaLoop_eq (n : BitVec 64) {k : Nat} (hk : k ≤ 15) :
    htoaLoop n k (htoaState (hexDigits (n.toNat / 2 ^ (4 * k) / 16))) =
      some (htoaState (hexDigits (n.toNat / 16))) := by
  induction k with
  | zero => simp [htoaLoop]
  | succ k ih =>
    have hnext : n.toNat / 2 ^ (4 * (k + 1)) = n.toNat / 2 ^ (4 * k) / 16 := by
      rw [Nat.div_div_eq_div_mul, Nat.mul_succ, Nat.pow_add]
    rw [htoaLoop, htoaGroup_eq (by omega), Option.bind_some, hnext]
    exact ih (by omega)

lemma htoa_of_loop {n : BitVec 64} {rest rest' written : List Char} {a b c : Char} {zeros : BitVec 8}
    (h : htoaLoop n 15 (0#8, ['0', 'x'], rest) = some (zeros, written, c :: rest')) :
    htoa n (a :: b :: rest) = some (written ++ hexChar (n &&& 0xF#64) :: rest') := by
  simp [htoa, h]

/-- `htoa` writes the numeral to the base 16, and zeros behind it. -/
lemma htoa_eq (n : BitVec 64) :
    ∃ k, htoa n (List.replicate 32 '\x00') =
        some ('0' :: 'x' :: (numeral 16 n.toNat ++ List.replicate (k + 1) '\x00')) ∧
      (numeral 16 n.toNat).length + k + 3 = 32 := by
  have htop : n.toNat / 2 ^ (4 * 15) / 16 = 0 := by
    rw [Nat.div_div_eq_div_mul]
    exact Nat.div_eq_of_lt n.isLt
  have hloop := htoaLoop_eq n (Nat.le_refl 15)
  rw [htop] at hloop
  have hlast : hexChar (n &&& 0xF#64) = digitChar (n.toNat % 16) := by
    have hgroup := group_eq n (Nat.zero_le 60)
    rw [BitVec.sshiftRight_zero, Nat.pow_zero, Nat.div_one] at hgroup
    rw [hgroup, hexChar_ofNat _ (Nat.mod_lt _ (by decide))]
  have hnum : hexDigits (n.toNat / 16) ++ [digitChar (n.toNat % 16)] = numeral 16 n.toNat := by
    by_cases hzero : n.toNat = 0
    · simp [hzero, hexDigits, numeral_of_lt]
    · rw [← hexDigits_snoc hzero, hexDigits, if_neg hzero]
  have hlen := hexDigits_length (m := n.toNat / 16) (by omega)
  have hroom : 30 - (hexDigits (n.toNat / 16)).length =
      (28 - (hexDigits (n.toNat / 16)).length) + 1 + 1 := by omega
  refine ⟨28 - (hexDigits (n.toNat / 16)).length, ?_, ?_⟩
  · rw [htoaState, htoaState, hroom, replicate_succ] at hloop
    refine (htoa_of_loop hloop).trans ?_
    rw [hlast, ← hnum]
    simp
  · rw [← hnum, length_append, length_singleton]
    omega

/-! ## What the strings say -/

/-- An optional minus sign and decimal digits. -/
def parseInt : List Char → Option Int
  | '-' :: s => (parseNat 10 s).map fun n => -(n : Int)
  | s => (parseNat 10 s).map Int.ofNat

def parseHex : List Char → Option Nat
  | '0' :: 'x' :: s => parseNat 16 s
  | _ => none

lemma nul_notMem_numeral {base n : Nat} (hbase : 2 ≤ base) (hmax : base ≤ 36) :
    '\x00' ∉ numeral base n := by
  intro hin
  rcases mem_numeral hbase hin with ⟨d, hd, hnul⟩
  have hdigit : ∀ d < 36, '\x00' ≠ digitChar d := by decide
  exact hdigit d (Nat.lt_of_lt_of_le hd hmax) hnul

lemma parseInt_numeral (n : Nat) : parseInt (numeral 10 n) = some (n : Int) := by
  have hparse : parseNat 10 (numeral 10 n) = some n := parseNat_numeral (by decide) (by decide)
  have hsign : ∀ s, numeral 10 n ≠ '-' :: s := by
    intro s hs
    rcases mem_numeral (by decide : 2 ≤ 10) (hs ▸ mem_cons_self : '-' ∈ numeral 10 n) with
      ⟨d, hd, hdash⟩
    have hdigit : ∀ d < 10, '-' ≠ digitChar d := by decide
    exact hdigit d hd hdash
  rw [parseInt.eq_2 _ hsign, hparse]
  rfl

/-- Every 64-bit number is written into 32 bytes and ended there, and the string says the number. -/
theorem numbers_round_trip (v : BitVec 64) (buf : List Char) (hbuf : buf.length = 32) :
    (∃ s rest, itoa v.toInt buf 10 = some (s ++ '\x00' :: rest) ∧ (s ++ '\x00' :: rest).length = 32 ∧
      '\x00' ∉ s ∧ parseInt s = some v.toInt) ∧
    ∃ s rest, htoa v (List.replicate 32 '\x00') = some (s ++ '\x00' :: rest) ∧
      (s ++ '\x00' :: rest).length = 32 ∧ '\x00' ∉ s ∧ parseHex s = some v.toNat := by
  constructor
  · have hmax : v.toInt.natAbs < 10 ^ 19 := by
      have hlow := BitVec.le_toInt v
      have hhigh := BitVec.toInt_lt (x := v)
      omega
    have hlen := length_numeral_le (by decide) hmax
    rcases itoa_eq v.toInt (show _ + 2 ≤ buf.length by omega) with ⟨rest, hcall, hroom⟩
    have hnul : '\x00' ∉ numeral 10 v.toInt.natAbs := nul_notMem_numeral (by decide) (by decide)
    refine ⟨_, rest, hcall, hroom.trans hbuf, ?_, ?_⟩
    · by_cases hneg : v.toInt < 0
      · simp [hneg, hnul]
      · simp [hneg, hnul]
    · by_cases hneg : v.toInt < 0
      · have hparse : parseNat 10 (numeral 10 v.toInt.natAbs) = some v.toInt.natAbs :=
          parseNat_numeral (by decide) (by decide)
        have habs : -(v.toInt.natAbs : Int) = v.toInt := by omega
        rw [if_pos hneg, List.singleton_append, parseInt, hparse]
        exact congrArg some habs
      · rw [if_neg hneg, List.nil_append, parseInt_numeral,
          Int.natAbs_of_nonneg (Int.not_lt.1 hneg)]
  · rcases htoa_eq v with ⟨k, hcall, hlen⟩
    refine ⟨'0' :: 'x' :: numeral 16 v.toNat, List.replicate k '\x00', ?_, ?_, ?_, ?_⟩
    · rw [hcall, List.replicate_succ]
      rfl
    · simp
      omega
    · simp [nul_notMem_numeral]
    · exact parseNat_numeral (by decide) (by decide)

/-- The smallest number. -/
theorem numbers_round_trip_min : ∃ s rest,
    itoa (BitVec.intMin 64).toInt (List.replicate 32 'x') 10 = some (s ++ '\x00' :: rest) ∧
      (s ++ '\x00' :: rest).length = 32 ∧ '\x00' ∉ s ∧ parseInt s = some (BitVec.intMin 64).toInt :=
  (numbers_round_trip (BitVec.intMin 64) (List.replicate 32 'x') List.length_replicate).1

end SigmaOS.Klibc
