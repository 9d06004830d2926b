import Mathlib.Algebra.Group.Nat.Defs
import Mathlib.Data.List.Basic

/-!
# Numeral — numbers as strings of digits

`parseNat` reads digits of a base up to 36, the letters in lower case, and accepts no zero in front of
other digits.  `numeral` is the string it reads as a given number (`parseNat_numeral`).
-/

namespace SigmaOS.Lib

open List

def digitChars : List Char :=
  "0123456789abcdefghijklmnopqrstuvwxyz".toList

def digitChar (d : Nat) : Char :=
  digitChars.getD d '?'

def digitOf (base : Nat) (c : Char) : Option Nat :=
  if digitChars.idxOf c < base then some (digitChars.idxOf c) else none

def parseDigits (base : Nat) (s : List Char) : Option Nat :=
  s.foldlM (fun n c => (digitOf base c).map (n * base + ·)) 0

/-- The value of a string of digits that does not begin with a superfluous zero. -/
def parseNat (base : Nat) (s : List Char) : Option Nat :=
  if s = ['0'] ∨ (s ≠ [] ∧ s.head? ≠ some '0') then parseDigits base s else none

def numeral (base n : Nat) : List Char :=
  if _h : 2 ≤ base ∧ base ≤ n then numeral base (n / base) ++ [digitChar (n % base)]
  else [digitChar n]
termination_by n
decreasing_by exact Nat.div_lt_self (by omega) _h.1

lemma idxOf_digitChar : ∀ d < 36, digitChars.idxOf (digitChar d) = d := by
  decide

section Numeral

variable {base n d : Nat}

lemma numeral_of_lt (h : n < base) : numeral base n = [digitChar n] := by
  rw [numeral, dif_neg fun hge => absurd h (Nat.not_lt.2 hge.2)]

lemma numeral_of_ge (hbase : 2 ≤ base) (h : base ≤ n) :
    numeral base n = numeral base (n / base) ++ [digitChar (n % base)] := by
  rw [numeral, dif_pos ⟨hbase, h⟩]

lemma numeral_ne_nil : numeral base n ≠ [] := by
  rw [numeral]
  split
  · exact append_ne_nil_of_right_ne_nil _ (cons_ne_nil _ _)
  · exact cons_ne_nil _ _

lemma digitOf_digitChar (hbase : base ≤ 36) (hd : d < base) :
    digitOf base (digitChar d) = some d := by
  rw [digitOf, idxOf_digitChar d (Nat.lt_of_lt_of_le hd hbase), if_pos hd]

section

variable (hbase : 2 ≤ base)
include hbase

lemma parseDigits_numeral (hmax : base ≤ 36) (n : Nat) :
    parseDigits base (numeral base n) = some n := by
  induction n using Nat.strongRecOn with
  | _ n ih =>
    by_cases hlt : n < base
    · simp [numeral_of_lt hlt, parseDigits, digitOf_digitChar hmax hlt]
    · have hge : base ≤ n := Nat.le_of_not_lt hlt
      have hrest := ih (n / base) (Nat.div_lt_self (by omega) hbase)
      have hmod : n % base < base := Nat.mod_lt n (by omega)
      rw [parseDigits] at hrest
      rw [numeral_of_ge hbase hge, parseDigits, foldlM_append, hrest]
      simp [digitOf_digitChar hmax hmod, Nat.div_add_mod']

lemma head?_numeral (hmax : base ≤ 36) (hn : n ≠ 0) : (numeral base n).head? ≠ some '0' := by
  induction n using Nat.strongRecOn with
  | _ n ih =>
    by_cases hlt : n < base
    · rw [numeral_of_lt hlt]
      intro h
      have hidx := idxOf_digitChar n (Nat.lt_of_lt_of_le hlt hmax)
      rw [Option.some.inj h] at hidx
      exact hn hidx.symm
    · have hge : base ≤ n := Nat.le_of_not_lt hlt
      rw [numeral_of_ge hbase hge, List.head?_append_of_ne_nil _ numeral_ne_nil]
      exact ih (n / base) (Nat.div_lt_self (by omega) hbase) (Nat.ne_of_gt (Nat.div_pos hge (by omega)))

lemma parseNat_numeral (hmax : base ≤ 36) : parseNat base (numeral base n) = some n := by
  have hform : numeral base n = ['0'] ∨
      (numeral base n ≠ [] ∧ (numeral base n).head? ≠ some '0') := by
    by_cases hn : n = 0
    · exact .inl (by rw [hn, numeral_of_lt (by omega)]; rfl)
    · exact .inr ⟨numeral_ne_nil, head?_numeral hbase hmax hn⟩
  rw [parseNat, if_pos hform, parseDigits_numeral hbase hmax]

lemma mem_numeral {c : Char} (hc : c ∈ numeral base n) : ∃ d < base, c = digitChar d := by
  induction n using Nat.strongRecOn with
  | _ n ih =>
    by_cases hlt : n < base
    · rw [numeral_of_lt hlt, mem_singleton] at hc
      exact ⟨n, hlt, hc⟩
    · rw [numeral_of_ge hbase (Nat.le_of_not_lt hlt), mem_append, mem_singleton] at hc
      rcases hc with hrest | hlast
      · exact ih (n / base) (Nat.div_lt_self (by omega) hbase) hrest
      · exact ⟨n % base, Nat.mod_lt n (by omega), hlast⟩

/-- A number below `base ^ (k + 1)` has at most `k + 1` digits. -/
lemma length_numeral_le {k n : Nat} (hn : n < base ^ (k + 1)) :
    (numeral base n).length ≤ k + 1 := by
  induction k generalizing n with
  | zero =>
    rw [numeral_of_lt (by simpa using hn)]
    exact Nat.le_refl 1
  | succ k ih =>
    by_cases hlt : n < base
    · rw [numeral_of_lt hlt]
      exact Nat.succ_le_succ (Nat.zero_le _)
    · rw [numeral_of_ge hbase (Nat.le_of_not_lt hlt), length_append, length_singleton]
      exact Nat.succ_le_succ (ih (Nat.div_lt_of_lt_mul (by rwa [Nat.mul_comm, ← Nat.pow_succ])))

end

end Numeral

end SigmaOS.Lib
