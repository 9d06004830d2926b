import Mathlib.Data.List.Basic

/-!
# Types.Queue — the growable array behind `types::queue`

`types::queue<T>` is an array with a fill level.  `push` writes behind the last element; `pop` and
`back` look at the last element too, so the element popped is the one pushed last.

* `malloc` is answered from outside: `none` is a null pointer, `some data` an array with the
  (arbitrary) old bytes `data`.
* A write through a null pointer and a `PANIC` are both the answer `none`.
-/

namespace SigmaOS.Types

open List

structure Queue (T : Type) where
  /-- `_array`; the slots below `_length` exist. -/
  array : Nat → T
  /-- `_length`, the capacity. -/
  length : Nat
  /-- `_offset`, the fill level. -/
  offset : Nat

namespace Queue

variable {T : Type}

def contents (q : Queue T) : List T :=
  (List.range q.offset).map q.array

def ensureCapacity (fresh : Option (Nat → T)) (q : Queue T) (c : Nat) : Option (Queue T) :=
  if c ≤ q.length then
    some q
  else
    match fresh with
    | none => none
    | some data =>
      some
        { array := fun i => if i < q.length then q.array i else data i
          length := q.length + c + 16
          offset := q.offset }

def push (fresh : Option (Nat → T)) (q : Queue T) (item : T) : Option (Queue T) :=
  match ensureCapacity fresh q (q.offset + 1) with
  | none => none
  | some r => some { r with array := Function.update r.array r.offset item, offset := r.offset + 1 }

def pop (q : Queue T) : Option (T × Queue T) :=
  match q.offset with
  | 0 => none
  | n + 1 => some (q.array n, { q with offset := n })

def back (q : Queue T) : Option T :=
  match q.offset with
  | 0 => none
  | n + 1 => some (q.array n)

def Wf (q : Queue T) : Prop :=
  q.offset ≤ q.length

/-! ## Growing keeps the elements -/

variable {fresh : Option (Nat → T)} {q : Queue T} {item : T}

/-- Growing keeps the contents and gives the capacity asked for. -/
lemma ensureCapacity_spec {r : Queue T} {c : Nat} (hwf : q.Wf)
    (h : ensureCapacity fresh q c = some r) :
    r.offset = q.offset ∧ r.contents = q.contents ∧ c ≤ r.length := by
  unfold ensureCapacity at h
  split at h
  · next hc =>
    cases h
    exact ⟨rfl, rfl, hc⟩
  split at h
  · cases h
  cases h
  refine ⟨rfl, ?_, by show c ≤ q.length + c + 16; omega⟩
  refine map_congr_left ?_
  intro i hi
  have hlt : i < q.length := Nat.lt_of_lt_of_le (mem_range.1 hi) hwf
  simp [hlt]

lemma push_spec {r : Queue T} (hwf : q.Wf)
    (h : push fresh q item = some r) : r.Wf ∧ r.contents = q.contents ++ [item] := by
  unfold push at h
  split at h
  · cases h
  next g hgrow =>
  cases h
  rcases ensureCapacity_spec hwf hgrow with ⟨hoff, hcont, hcap⟩
  have hcap' : g.offset + 1 ≤ g.length := by omega
  refine ⟨hcap', ?_⟩
  have hold : (List.range g.offset).map (Function.update g.array g.offset item) =
      (List.range g.offset).map g.array := by
    refine map_congr_left ?_
    intro i hi
    have hne : i ≠ g.offset := Nat.ne_of_lt (mem_range.1 hi)
    simp [hne]
  rw [← hcont]
  simp [contents, range_succ, hold]

lemma pop_spec {r : Queue T} (hwf : q.Wf) (h : q.pop = some (item, r)) :
    r.Wf ∧ q.contents = r.contents ++ [item] := by
  unfold pop at h
  split at h
  · cases h
  next n hoff =>
  cases h
  have hle : q.offset ≤ q.length := hwf
  refine ⟨by show n ≤ q.length; omega, ?_⟩
  simp [contents, hoff, range_succ]

lemma back_spec (h : q.offset ≠ 0) :
    ∃ front item, q.back = some item ∧ q.contents = front ++ [item] := by
  cases hoff : q.offset with
  | zero => exact absurd hoff h
  | succ n =>
    exact ⟨(List.range n).map q.array, q.array n, by simp [back, hoff],
      by simp [contents, hoff, range_succ]⟩

lemma pop_eq_none : q.pop = none ↔ q.offset = 0 := by
  cases hoff : q.offset with
  | zero => simp [pop, hoff]
  | succ n => simp [pop, hoff]

lemma contents_eq_nil : q.contents = [] ↔ q.offset = 0 := by
  simp [contents]

end Queue

end SigmaOS.Types
