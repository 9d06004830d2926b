import Mathlib.Data.List.Basic

/-!
# Lib.AnswerTable — answers filed under keys

Answers arrive in order and are filed in a table; answer `k` is filed under `key k`, over what was
there.  A client that waits for answer `n` looks under a key of its own.  What it finds is answer `n`
as long as no answer before it was filed under that key (`Filed.own`); entries are never taken out, so
an earlier answer under the key is found at once (`Filed.marked`).
-/

namespace SigmaOS.Lib

open List Function

universe u v

/-- The table after the answers `log`. -/
structure Filed {κ : Type u} {α : Type v} (key : Nat → κ) (log : List α) (table : κ → Option α) :
    Prop where
  known : ∀ c a, table c = some a → ∃ k, k < log.length ∧ key k = c
  marked : ∀ k, k < log.length → ∃ a, table (key k) = some a
  latest : ∀ k a, log[k]? = some a → (∀ j, k < j → j < log.length → key j ≠ key k) →
    table (key k) = some a

namespace Filed

variable {κ : Type u} {α : Type v} {key : Nat → κ} {log : List α} {table : κ → Option α} {a : α}
  {c : κ} {n : Nat}

lemma nil (h : ∀ c, table c = none) : Filed key ([] : List α) table where
  known := by
    intro c a ha
    rw [h c] at ha
    cases ha
  marked := fun k hk => absurd hk (Nat.not_lt_zero k)
  latest := fun k a ha => absurd ha (by simp)

/-- An answer under the next key. -/
lemma file [DecidableEq κ] (h : Filed key log table) (a : α) :
    Filed key (log ++ [a]) (Function.update table (key log.length) (some a)) where
  known := by
    intro c b hb
    rw [length_append, length_singleton]
    by_cases hc : c = key log.length
    · exact ⟨log.length, Nat.lt_succ_self _, hc.symm⟩
    · rw [update_of_ne hc] at hb
      rcases h.known c b hb with ⟨k, hk, hkey⟩
      exact ⟨k, Nat.lt_succ_of_lt hk, hkey⟩
  marked := by
    intro k hk
    rw [length_append, length_singleton] at hk
    by_cases hc : key k = key log.length
    · exact ⟨a, by rw [hc, update_self]⟩
    · rw [update_of_ne hc]
      refine h.marked k (Nat.lt_of_le_of_ne (Nat.le_of_lt_succ hk) fun heq => ?_)
      exact hc (congrArg key heq)
  latest := by
    intro k b hb hlast
    rw [length_append, length_singleton] at hlast
    by_cases hk : k = log.length
    · have hab : a = b := by simpa [hk] using hb
      rw [hk, update_self, hab]
    · have hlt : k < log.length := by
        have hle := (List.getElem?_eq_some_iff.1 hb).1
        rw [length_append, length_singleton] at hle
        omega
      rw [List.getElem?_append_left hlt] at hb
      have hne : key k ≠ key log.length := (hlast log.length hlt (Nat.lt_succ_self _)).symm
      rw [update_of_ne hne]
      exact h.latest k b hb fun j hj hj' => hlast j hj (Nat.lt_succ_of_lt hj')

/-- Up to answer `n`, a key that only answer `n` can be filed under holds answer `n`. -/
lemma own (h : Filed key log table) (hlen : log.length ≤ n + 1)
    (honly : ∀ k, k ≤ n → key k = c → k = n) (ha : table c = some a) : log[n]? = some a := by
  rcases h.known c a ha with ⟨k, hk, hkey⟩
  have hkn : k = n := honly k (by omega) hkey
  rw [hkn] at hk hkey
  have hfound := h.latest n _ (List.getElem?_eq_getElem hk) fun j hj hj' => absurd hj' (by omega)
  rw [hkey, ha] at hfound
  rw [List.getElem?_eq_getElem hk, hfound]

end Filed

end SigmaOS.Lib
