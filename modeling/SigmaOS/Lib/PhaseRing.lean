import Mathlib.Data.List.Basic

/-!
# Lib.PhaseRing — a ring with a phase bit

A producer writes items in order into a ring of `size` slots, each with the phase of its lap, which
is inverted whenever the ring is full.  A consumer that has taken `c` items looks at slot
`c % size` for the phase of lap `c / size`.  As long as the producer is at most one lap ahead, the
consumer sees that phase exactly if item `c` is there (`Written.ready_iff`), and then it is item `c`
that it reads (`Written.kept`).
-/

namespace SigmaOS.Lib

open List

universe u

/-! ## Laps -/

/-- The phase with which item `k` is written: `true` in the first lap. -/
def lapPhase (size k : Nat) : Bool :=
  k / size % 2 == 0

def nextIndex (size i : Nat) : Nat :=
  if i + 1 = size then 0 else i + 1

section Lap

variable {size k : Nat}

lemma lapPhase_first (h : k < size) : lapPhase size k = true := by
  rw [lapPhase, Nat.div_eq_of_lt h]
  rfl

lemma lapPhase_lap (hsize : 0 < size) : lapPhase size (k + size) = !lapPhase size k := by
  have hdiv : (k + size) / size = k / size + 1 := Nat.add_div_right k hsize
  rw [lapPhase, lapPhase, hdiv]
  rcases Nat.mod_two_eq_zero_or_one (k / size) with heven | hodd
  · simp [heven, Nat.add_mod]
  · simp [hodd, Nat.add_mod]

lemma mod_succ (hsize : 0 < size) : (k + 1) % size = nextIndex size (k % size) := by
  have hlt := Nat.mod_lt k hsize
  rw [nextIndex, Nat.add_mod]
  split
  · next hend =>
    by_cases hone : size = 1
    · rw [hone, Nat.mod_one]
    · rw [Nat.mod_eq_of_lt (show 1 < size by omega), hend, Nat.mod_self]
  · next hin =>
    rw [Nat.mod_eq_of_lt (show 1 < size by omega), Nat.mod_eq_of_lt (by omega)]

/-- The phase flips at the end of a lap. -/
lemma lapPhase_succ (hsize : 0 < size) :
    lapPhase size (k + 1) =
      if k % size + 1 = size then !lapPhase size k else lapPhase size k := by
  have hk := Nat.div_add_mod k size
  split
  · next hend =>
    have hdiv : (k + 1) / size = k / size + 1 := by
      have hsum : k + 1 = size * (k / size + 1) := by
        rw [Nat.mul_succ]
        omega
      rw [hsum, Nat.mul_div_cancel_left _ hsize]
    have hlap : (k + size) / size = k / size + 1 := Nat.add_div_right k hsize
    rw [← lapPhase_lap hsize, lapPhase, lapPhase, hdiv, hlap]
  · next hin =>
    have hlt := Nat.mod_lt k hsize
    have hdiv : (k + 1) / size = k / size := by
      refine Nat.div_eq_of_lt_le ?_ ?_
      · rw [Nat.mul_comm]
        omega
      · rw [Nat.succ_mul, Nat.mul_comm]
        omega
    rw [lapPhase, lapPhase, hdiv]

lemma nextIndex_ne {i : Nat} (hsize : 2 ≤ size) : nextIndex size i ≠ i := by
  rw [nextIndex]
  split <;> omega

end Lap

/-- The slots after the items were written in order: the last lap of items is there, and slots that
were never written are blank. -/
structure Written {α : Type u} (size : Nat) (items : List α) (slots : Nat → Bool × α) : Prop where
  kept : ∀ k x, items[k]? = some x → items.length ≤ k + size →
    slots (k % size) = (lapPhase size k, x)
  blank : ∀ i, items.length ≤ i → i < size → (slots i).1 = false

namespace Written

variable {α : Type u} {size c : Nat} {items : List α} {slots : Nat → Bool × α}

lemma nil (h : ∀ i, (slots i).1 = false) : Written size [] slots where
  kept := fun k x hk => absurd hk (by simp)
  blank := fun i _ _ => h i

/-- An item in the next slot. -/
lemma post (h : Written size items slots) (x : α) :
    Written size (items ++ [x])
      (Function.update slots (items.length % size) (lapPhase size items.length, x)) where
  kept := by
    intro k y hk hlap
    rw [length_append, length_singleton] at hlap
    by_cases hlast : k = items.length
    · rw [hlast] at hk ⊢
      have hxy : x = y := by simpa using hk
      rw [Function.update_self, hxy]
    · have hk' : k < items.length := by
        have hlt := (List.getElem?_eq_some_iff.1 hk).1
        rw [length_append, length_singleton] at hlt
        omega
      rw [List.getElem?_append_left hk'] at hk
      -- less than a lap apart, so not the same slot
      have hslot : k % size ≠ items.length % size := by
        intro heq
        have hmod : (items.length - k) % size = 0 :=
          (Nat.sub_mod_eq_zero_of_mod_eq heq.symm)
        rw [Nat.mod_eq_of_lt (by omega)] at hmod
        omega
      rw [Function.update_of_ne hslot]
      exact h.kept k y hk (by omega)
  blank := by
    intro i hi hin
    rw [length_append, length_singleton] at hi
    have hne : i ≠ items.length % size := by
      have hle := Nat.mod_le items.length size
      omega
    rw [Function.update_of_ne hne]
    exact h.blank i (by omega) hin

/-- The phase bit at the reader's slot tells whether an unread item is there. -/
lemma ready_iff (h : Written size items slots) (hsize : 0 < size) (hc : c ≤ items.length)
    (hlap : items.length ≤ c + size) :
    (slots (c % size)).1 = lapPhase size c ↔ c < items.length := by
  constructor
  · intro hphase
    refine Nat.lt_of_le_of_ne hc fun heq => ?_
    -- the slot still holds the item of the lap before, or nothing
    by_cases hfirst : c < size
    · rw [Nat.mod_eq_of_lt hfirst, h.blank c (Nat.le_of_eq heq.symm) hfirst,
        lapPhase_first hfirst] at hphase
      cases hphase
    · obtain ⟨k, hk⟩ : ∃ k, c = k + size := ⟨c - size, by omega⟩
      obtain ⟨x, hx⟩ : ∃ x, items[k]? = some x :=
        ⟨_, List.getElem?_eq_getElem (show k < items.length by omega)⟩
      have hold := h.kept k x hx (by omega)
      rw [hk, Nat.add_mod_right, hold, lapPhase_lap hsize] at hphase
      cases hp : lapPhase size k <;> rw [hp] at hphase <;> cases hphase
  · intro hlt
    rw [h.kept c _ (List.getElem?_eq_getElem hlt) hlap]

end Written

lemma snoc_isPrefix {α : Type u} {l m : List α} {x : α} (h : l <+: m)
    (hx : m[l.length]? = some x) : l ++ [x] <+: m := by
  rcases h with ⟨rest, rfl⟩
  cases rest with
  | nil => simp at hx
  | cons y rest =>
    have hyx : y = x := by simpa using hx
    rw [hyx]
    exact ⟨rest, by simp⟩

end SigmaOS.Lib
