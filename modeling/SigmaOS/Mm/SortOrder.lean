import SigmaOS.Mm.Safety

/-!
# Mm.SortOrder — `sort_stack` and the order it leaves

`mm::pmm::init` sorts the stack before and after it reserves memory.  Sorting permutes the entries that
have pages and drops the others (`sortStack_perm`).

`sorted_insert` compares with the slot *above* the stack.  At the first call this slot still holds
an entry of the unsorted stack; below it, it is the entry just popped.  So `x` sinks until it has
passed an entry that is greater, and one place too far (`place`).
-/

namespace SigmaOS.Mm.Pmm

open List
open RleStack

def sortedInsertFrom (x : RleStackEntry) : Nat → RleStack → Option RleStack
  | 0, s => s.push x
  | n + 1, s =>
    if x.base < (s.slots s.pointer).base then
      s.push x
    else
      match s.pop with
      | none => none
      | some (temp, s₁) =>
        match sortedInsertFrom x n s₁ with
        | none => none
        | some s₂ => s₂.push temp

def sortedInsert (x : RleStackEntry) (s : RleStack) : Option RleStack :=
  sortedInsertFrom x s.pointer s

/-- `sort_stack` with `n` entries on the stack.  Entries without pages are dropped. -/
def sortStackFrom : Nat → RleStack → Option RleStack
  | 0, s => some s
  | n + 1, s =>
    match s.pop with
    | none => none
    | some (entry, s₁) =>
      match sortStackFrom n s₁ with
      | none => none
      | some s₂ => if entry.nPages ≠ 0 then sortedInsert entry s₂ else some s₂

def sortStack (s : RleStack) : Option RleStack :=
  sortStackFrom s.pointer s

namespace RleStack

variable {s s' : RleStack} {e ent : RleStackEntry}

def entries (s : RleStack) : List RleStackEntry :=
  (List.range s.pointer).map s.slots

lemma entries_push (hpush : s.push e = some s') : s'.entries = s.entries ++ [e] := by
  rcases push_some hpush with rfl
  have hold : (List.range s.pointer).map (Function.update s.slots s.pointer e) =
      (List.range s.pointer).map s.slots := by
    refine List.map_congr_left ?_
    intro i hi
    rw [Function.update_of_ne (Nat.ne_of_lt (List.mem_range.1 hi))]
  simp [entries, List.range_succ, hold]

lemma entries_pop (hpop : s.pop = some (ent, s')) :
    s.entries = s'.entries ++ [ent] ∧ s.pointer = s'.pointer + 1 := by
  rcases pop_some hpop with ⟨n, hp, rfl, rfl⟩
  simp [entries, hp, List.range_succ]

end RleStack

/-! ## Sorting permutes the entries -/

/-- Inserting permutes the entries. -/
lemma sortedInsertFrom_perm {x : RleStackEntry} {n : Nat} {s s' : RleStack}
    (h : sortedInsertFrom x n s = some s') : s'.entries.Perm (x :: s.entries) := by
  induction n generalizing s s' with
  | zero =>
    rw [entries_push h]
    exact List.perm_append_singleton x s.entries
  | succ n ih =>
    unfold sortedInsertFrom at h
    split at h
    · rw [entries_push h]
      exact List.perm_append_singleton x s.entries
    split at h
    · cases h
    next temp s₁ hpop =>
    split at h
    · cases h
    next hrec =>
    rw [entries_push h, (entries_pop hpop).1]
    exact (ih hrec).append_right [temp]

/-- Sorting drops the entries without pages and no others. -/
lemma sortStackFrom_perm {n : Nat} {s s' : RleStack} (hn : s.pointer = n)
    (h : sortStackFrom n s = some s') :
    s'.entries.Perm (s.entries.filter fun e => e.nPages ≠ 0) := by
  induction n generalizing s s' with
  | zero =>
    cases h
    simp [entries, hn]
  | succ n ih =>
    unfold sortStackFrom at h
    split at h
    · cases h
    next entry s₁ hpop =>
    rcases entries_pop hpop with ⟨hentries, hpointer⟩
    split at h
    · cases h
    next s₂ hrec =>
    have hperm := ih (by omega) hrec
    rw [hentries, List.filter_append]
    split at h
    · next hz =>
      calc
        s'.entries.Perm (entry :: s₂.entries) := sortedInsertFrom_perm h
        List.Perm _ (entry :: s₁.entries.filter fun e => e.nPages ≠ 0) := hperm.cons entry
        List.Perm _ _ := by simpa [hz] using (List.perm_append_singleton entry _).symm
    · next hz =>
      cases h
      simpa [not_not.1 hz] using hperm

lemma sortStack_perm {s s' : RleStack} (h : sortStack s = some s') :
    s'.entries.Perm (s.entries.filter fun e => e.nPages ≠ 0) :=
  sortStackFrom_perm rfl h

/-! ## One insertion -/

/-- Where `sorted_insert` puts `x` among the entries from the top of the stack down, when the slot
above them holds `above`. -/
def place (x above : RleStackEntry) : List RleStackEntry → List RleStackEntry
  | [] => [x]
  | t :: ts => if x.base < above.base then x :: t :: ts else t :: place x t ts

/-- Lowest memory first: the order of the entries from the top of a sorted stack down. -/
def Ascending (ts : List RleStackEntry) : Prop :=
  ts.Pairwise fun e e' => e.base ≤ e'.base

section Place

variable {x above : RleStackEntry} {ts : List RleStackEntry}

@[simp] lemma length_place : (place x above ts).length = ts.length + 1 := by
  induction ts generalizing above with
  | nil => rfl
  | cons t ts ih =>
    rw [place]
    split
    · rfl
    · rw [length_cons, ih, length_cons]

lemma mem_place {e : RleStackEntry} : e ∈ place x above ts ↔ e = x ∨ e ∈ ts := by
  induction ts generalizing above with
  | nil => simp [place]
  | cons t ts ih =>
    rw [place]
    split
    · exact mem_cons
    · rw [mem_cons, ih, mem_cons]
      exact or_left_comm

lemma sublist_place : ts.Sublist (place x above ts) := by
  induction ts generalizing above with
  | nil => exact nil_sublist _
  | cons t ts ih =>
    rw [place]
    split
    · exact sublist_cons_self x _
    · exact ih.cons_cons t

lemma place_of_lt (h : x.base < above.base) : place x above ts = x :: ts := by
  cases ts with
  | nil => rfl
  | cons t ts => exact if_pos h

/-- When the slot above does not stop it, `x` ends up in order only below everything. -/
lemma ascending_place_iff_of_le (hts : Ascending ts) (h : above.base ≤ x.base) :
    Ascending (place x above ts) ↔ ∀ t ∈ ts, t.base ≤ x.base := by
  induction ts generalizing above with
  | nil => simp [place, Ascending]
  | cons t ts ih =>
    rcases pairwise_cons.1 hts with ⟨hle, hrest⟩
    rw [place, if_neg (Nat.not_lt_of_le h)]
    constructor
    · intro hasc
      have htx : t.base ≤ x.base :=
        (pairwise_cons.1 hasc).1 x (mem_place.2 (.inl rfl))
      intro e he
      rcases mem_cons.1 he with rfl | he
      · exact htx
      · exact (ih hrest htx).1 (pairwise_cons.1 hasc).2 e he
    · intro hall
      have htx : t.base ≤ x.base := hall t mem_cons_self
      refine pairwise_cons.2 ⟨?_, ?_⟩
      · intro e he
        rcases mem_place.1 he with rfl | he
        · exact htx
        · exact hle e he
      · exact (ih hrest htx).2 fun e he => hall e (mem_cons_of_mem t he)

/-- `x` belongs at the end of the stack to which the slot above sends it. -/
def Fits (x above : RleStackEntry) (ts : List RleStackEntry) : Prop :=
  (x.base < above.base ∧ ∀ t ∈ ts, x.base ≤ t.base) ∨
    (above.base ≤ x.base ∧ ∀ t ∈ ts, t.base ≤ x.base)

/-- Placing keeps the order iff the entry fits where it is put. -/
lemma ascending_place_iff : Ascending (place x above ts) ↔ Ascending ts ∧ Fits x above ts := by
  by_cases hlt : x.base < above.base
  · have hnot : ¬ above.base ≤ x.base := Nat.not_le_of_lt hlt
    rw [place_of_lt hlt, Ascending, pairwise_cons]
    constructor
    · rintro ⟨hle, hts⟩
      exact ⟨hts, .inl ⟨hlt, hle⟩⟩
    · rintro ⟨hts, ⟨_, hle⟩ | ⟨hge, _⟩⟩
      · exact ⟨hle, hts⟩
      · exact absurd hge hnot
  · have hge : above.base ≤ x.base := Nat.le_of_not_lt hlt
    constructor
    · intro hasc
      have hts : Ascending ts := hasc.sublist sublist_place
      exact ⟨hts, .inr ⟨hge, (ascending_place_iff_of_le hts hge).1 hasc⟩⟩
    · rintro ⟨hts, ⟨h, _⟩ | ⟨_, hle⟩⟩
      · exact absurd h hlt
      · exact (ascending_place_iff_of_le hts hge).2 hle

end Place

/-! ## The functions on the stack -/

def RleStack.tops (s : RleStack) : List RleStackEntry :=
  s.entries.reverse

/-- What an insertion leaves: the entries on the stack are those of `tops`, and the slots above them
are as they were. -/
structure Leaves (s : RleStack) (tops : List RleStackEntry) (s' : RleStack) : Prop where
  tops : s'.tops = tops
  top : s'.top = s.top
  above : ∀ i, s'.pointer ≤ i → s'.slots i = s.slots i

section Functions

variable {s s' : RleStack} {x e : RleStackEntry} {n : Nat}

@[simp] lemma RleStack.length_tops : s.tops.length = s.pointer := by
  simp [tops, entries]

lemma push_leaves (hroom : s.pointer + 2 < s.top) :
    ∃ s', s.push x = some s' ∧ s'.pointer = s.pointer + 1 ∧ Leaves s (x :: s.tops) s' := by
  have hpush : s.push x = some
      { s with slots := Function.update s.slots s.pointer x, pointer := s.pointer + 1 } := by
    simp [RleStack.push, Nat.ne_of_lt hroom]
  refine ⟨_, hpush, rfl, ?_, rfl, ?_⟩
  · rw [RleStack.tops, RleStack.entries_push hpush, reverse_append, reverse_singleton]
    rfl
  · intro i hi
    exact Function.update_of_ne (Nat.ne_of_gt hi) _ _

/-- Where an entry is put, by what the slot above the top holds. -/
lemma sortedInsertFrom_places {n : Nat} {s : RleStack} (hn : s.pointer = n)
    (hroom : s.pointer + 2 < s.top) :
    ∃ s', sortedInsertFrom x n s = some s' ∧ s'.pointer = n + 1 ∧
      Leaves s (place x (s.slots s.pointer) s.tops) s' := by
  induction n generalizing s with
  | zero =>
    rcases push_leaves (x := x) hroom with ⟨s', hpush, hpointer, hleaves⟩
    have hnil : s.tops = [] := length_eq_zero_iff.1 (by simpa using hn)
    rw [hnil] at hleaves ⊢
    exact ⟨s', hpush, by omega, hleaves⟩
  | succ n ih =>
    by_cases hlt : x.base < (s.slots s.pointer).base
    · rcases push_leaves (x := x) hroom with ⟨s', hpush, hpointer, hleaves⟩
      refine ⟨s', by simpa [sortedInsertFrom, hlt] using hpush, by omega, ?_⟩
      rwa [place_of_lt hlt]
    · -- the popped entry stays in the slot above the smaller stack, where `x` meets it next
      have hpop : s.pop = some (s.slots n, { s with pointer := n }) := by simp [RleStack.pop, hn]
      have htops : s.tops = s.slots n :: RleStack.tops { s with pointer := n } := by
        rw [RleStack.tops, (RleStack.entries_pop hpop).1, reverse_append]
        rfl
      rcases ih (s := { s with pointer := n }) rfl (by show n + 2 < s.top; omega) with
        ⟨s₂, hrec, hpointer, hleaves⟩
      have hroom₂ : s₂.pointer + 2 < s₂.top := by
        have htop : s₂.top = s.top := hleaves.top
        omega
      rcases push_leaves (x := s.slots n) hroom₂ with ⟨s', hpush, hpointer', hleaves'⟩
      refine ⟨s', by simp [sortedInsertFrom, hlt, hpop, hrec, hpush], by omega, ?_, ?_, ?_⟩
      · rw [hleaves'.tops, hleaves.tops, htops, place, if_neg hlt]
      · exact hleaves'.top.trans hleaves.top
      · intro i hi
        rw [hleaves'.above i hi]
        exact hleaves.above i (by omega)

/-- What is left of the first `n` slots, from the top down. -/
def sortedTops (slots : Nat → RleStackEntry) : Nat → List RleStackEntry
  | 0 => []
  | n + 1 =>
    if (slots n).nPages ≠ 0 then
      place (slots n) (slots (sortedTops slots n).length) (sortedTops slots n)
    else
      sortedTops slots n

lemma length_sortedTops_le (slots : Nat → RleStackEntry) (n : Nat) :
    (sortedTops slots n).length ≤ n := by
  induction n with
  | zero => exact Nat.le_refl 0
  | succ n ih =>
    rw [sortedTops]
    split
    · rw [length_place]
      exact Nat.succ_le_succ ih
    · exact Nat.le_succ_of_le ih

/-- The stack after the recursion. -/
lemma sortStackFrom_places {n : Nat} {s : RleStack} (hn : s.pointer = n)
    (hroom : s.pointer + 3 ≤ s.top) :
    ∃ s', sortStackFrom n s = some s' ∧ Leaves s (sortedTops s.slots n) s' := by
  induction n generalizing s with
  | zero =>
    refine ⟨s, rfl, ?_, rfl, fun i _ => rfl⟩
    exact length_eq_zero_iff.1 (by simpa using hn)
  | succ n ih =>
    have hpop : s.pop = some (s.slots n, { s with pointer := n }) := by simp [RleStack.pop, hn]
    rcases ih (s := { s with pointer := n }) rfl (by show n + 3 ≤ s.top; omega) with
      ⟨s₂, hrec, hleaves⟩
    have hpointer : s₂.pointer = (sortedTops s.slots n).length := by
      rw [← RleStack.length_tops, hleaves.tops]
    by_cases hz : (s.slots n).nPages = 0
    · refine ⟨s₂, by simp [sortStackFrom, hpop, hrec, hz], ?_, hleaves.top, hleaves.above⟩
      rw [hleaves.tops, sortedTops, if_neg (not_not.2 hz)]
    · have hle := length_sortedTops_le s.slots n
      have htop : s₂.top = s.top := hleaves.top
      rcases sortedInsertFrom_places (x := s.slots n) (s := s₂) rfl (by omega) with
        ⟨s', hins, hpointer', hleaves'⟩
      refine ⟨s', by simp [sortStackFrom, hpop, hrec, hz, sortedInsert, hins], ?_, ?_, ?_⟩
      · -- the slot above the sorted part has not been written yet
        have habove := hleaves.above s₂.pointer (Nat.le_refl _)
        rw [hleaves'.tops, habove, hleaves.tops, hpointer, sortedTops, if_pos hz]
      · exact hleaves'.top.trans hleaves.top
      · intro i hi
        rw [hleaves'.above i hi]
        exact hleaves.above i (by omega)

end Functions

/-! ## The order in the end -/

/-- At every insertion the entry belongs at the end to which the slot above the stack sends it.  Only
entries with pages are inserted, and the slot has the number of those that are below the entry. -/
def RleStack.Sortable (s : RleStack) : Prop :=
  ∀ k, k < s.pointer → (s.slots k).nPages ≠ 0 →
    Fits (s.slots k)
      (s.slots ((List.range k).filter fun i => (s.slots i).nPages ≠ 0).length)
      (((List.range k).filter fun i => (s.slots i).nPages ≠ 0).map s.slots)

section Order

variable {s : RleStack}

lemma mem_sortedTops {slots : Nat → RleStackEntry} {e : RleStackEntry} {n : Nat} :
    e ∈ sortedTops slots n ↔
      e ∈ ((List.range n).filter fun i => (slots i).nPages ≠ 0).map slots := by
  induction n with
  | zero => simp [sortedTops]
  | succ n ih =>
    rw [sortedTops, range_succ, filter_append, map_append, mem_append, ← ih]
    by_cases hz : (slots n).nPages = 0
    · simp [hz]
    · simp [hz, mem_place, or_comm]

lemma length_sortedTops (slots : Nat → RleStackEntry) (n : Nat) :
    (sortedTops slots n).length =
      ((List.range n).filter fun i => (slots i).nPages ≠ 0).length := by
  induction n with
  | zero => rfl
  | succ n ih =>
    rw [sortedTops, range_succ, filter_append, length_append, ← ih]
    by_cases hz : (slots n).nPages = 0
    · simp [hz]
    · simp [hz]

lemma fits_congr {x above : RleStackEntry} {ts ts' : List RleStackEntry}
    (h : ∀ e, e ∈ ts ↔ e ∈ ts') : Fits x above ts ↔ Fits x above ts' := by
  simp only [Fits, h]

lemma ascending_sortedTops_iff (slots : Nat → RleStackEntry) (n : Nat) :
    Ascending (sortedTops slots n) ↔
      ∀ k, k < n → (slots k).nPages ≠ 0 →
        Fits (slots k) (slots (sortedTops slots k).length) (sortedTops slots k) := by
  induction n with
  | zero => simp [sortedTops, Ascending]
  | succ n ih =>
    rw [Nat.forall_lt_succ_right, ← ih, sortedTops]
    by_cases hz : (slots n).nPages = 0
    · simp [hz]
    · rw [if_pos hz, ascending_place_iff]
      simp only [ne_eq, hz, not_false_eq_true, forall_const]

/-- With three free slots above the stack `sort_stack` returns and leaves a permutation of the entries
that have pages.  Their bases do not increase from the bottom to the top if and only if the stack was
`Sortable`. -/
theorem sortStack_sorted_iff (hroom : s.pointer + 3 ≤ s.top) :
    ∃ s', sortStack s = some s' ∧
      s'.entries.Perm (s.entries.filter fun e => e.nPages ≠ 0) ∧
      (s'.entries.Pairwise (fun e e' => e'.base ≤ e.base) ↔ s.Sortable) := by
  rcases sortStackFrom_places rfl hroom with ⟨s', hsort, hleaves⟩
  refine ⟨s', hsort, sortStack_perm hsort, ?_⟩
  have htops : s'.entries.Pairwise (fun e e' => e'.base ≤ e.base) ↔ Ascending s'.tops :=
    List.pairwise_reverse.symm
  rw [htops, hleaves.tops, ascending_sortedTops_iff]
  refine forall_congr' fun k => forall_congr' fun _ => forall_congr' fun _ => ?_
  rw [length_sortedTops]
  exact fits_congr fun e => mem_sortedTops

def sortedPair : RleStack where
  slots := fun i => if i = 0 then ⟨0x200000, 1⟩ else ⟨0x100000, 1⟩
  pointer := 2
  top := 5

def unsortedPair : RleStack where
  slots := fun i => if i = 0 then ⟨0x100000, 1⟩ else ⟨0x200000, 1⟩
  pointer := 2
  top := 5

/-- Entries from low to high memory are turned round. -/
theorem sortStack_sorted_pair :
    ∃ s', sortStack unsortedPair = some s' ∧
      s'.entries.Pairwise (fun e e' => e'.base ≤ e.base) := by
  rcases sortStack_sorted_iff (s := unsortedPair) (by decide) with ⟨s', hsort, _, hiff⟩
  refine ⟨s', hsort, hiff.2 ?_⟩
  intro k hk _
  have hcase : k = 0 ∨ k = 1 := by
    have hlt : k < 2 := hk
    omega
  rcases hcase with rfl | rfl
  · exact Or.inr ⟨by decide, by decide⟩
  · exact Or.inr ⟨by decide, by decide⟩

/-- A stack that was sorted is not sorted afterwards: 2 MiB is on top. -/
theorem sortStack_unsorts :
    ∃ s', sortStack sortedPair = some s' ∧ s'.entries = [⟨0x100000, 1⟩, ⟨0x200000, 1⟩] ∧
      ¬ s'.entries.Pairwise (fun e e' => e'.base ≤ e.base) := by
  refine ⟨_, rfl, by decide, by decide⟩

end Order

end SigmaOS.Mm.Pmm
