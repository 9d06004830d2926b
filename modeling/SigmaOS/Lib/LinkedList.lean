import Mathlib.Data.List.Basic

/-!
# LinkedList — singly linked lists in a store

A store `m : A → Option N` holds nodes at addresses; `next` is the address a node links to.
`Segment m next a xs z` says that from `a` the links lead through the addresses `xs`, in this order,
to `z`; a null-terminated list is a segment that ends in the null address.

* `Segment.congr`: what is written elsewhere, or into other parts of the nodes, does not matter.
* `Segment.relink`: writing the link of the last node moves the end of the segment.
* `visit` is the loop that looks at one node after the other until it finds an answer;
  `Segment.visit_eq` says what it finds on a null-terminated list.
-/

namespace SigmaOS.Lib

open List

universe u v w

variable {A : Type u} {N : Type v} {R : Type w}

/-! ## Segments -/

/-- From `a` the links lead through the addresses of a list to `z`. -/
def Segment (m : A → Option N) (next : N → A) : A → List A → A → Prop
  | a, [], z => a = z
  | a, x :: xs, z => a = x ∧ ∃ n, m x = some n ∧ Segment m next (next n) xs z

namespace Segment

variable {m m' : A → Option N} {next : N → A} {a x y z : A} {xs ys : List A} {n : N}

/-- A segment over an append is two segments that meet. -/
lemma append_iff {xs : List A} {a : A} :
    Segment m next a (xs ++ ys) z ↔ ∃ y, Segment m next a xs y ∧ Segment m next y ys z := by
  induction xs generalizing a with
  | nil =>
    refine ⟨fun h => ⟨a, rfl, h⟩, ?_⟩
    rintro ⟨y, rfl, h⟩
    exact h
  | cons x xs ih =>
    constructor
    · rintro ⟨hax, n, hn, hrest⟩
      rcases ih.1 hrest with ⟨y, hxs, hys⟩
      exact ⟨y, ⟨hax, n, hn, hxs⟩, hys⟩
    · rintro ⟨y, ⟨hax, n, hn, hxs⟩, hys⟩
      exact ⟨hax, n, hn, ih.2 ⟨y, hxs, hys⟩⟩

lemma stored : ∀ {xs : List A} {a : A}, Segment m next a xs z → ∀ x ∈ xs, ∃ n, m x = some n := by
  intro xs
  induction xs with
  | nil =>
    intro a _ x hx
    exact absurd hx not_mem_nil
  | cons y xs ih =>
    rintro a ⟨_, n, hn, hrest⟩ x hx
    rcases mem_cons.1 hx with rfl | hin
    · exact ⟨n, hn⟩
    · exact ih hrest x hin

lemma next_mem :
    ∀ {xs : List A} {a : A}, Segment m next a xs z →
      ∀ x ∈ xs, ∀ n, m x = some n → next n ∈ xs ∨ next n = z := by
  intro xs
  induction xs with
  | nil =>
    intro a _ x hx
    exact absurd hx not_mem_nil
  | cons y xs ih =>
    rintro a ⟨_, n, hn, hrest⟩ x hx n' hn'
    rcases mem_cons.1 hx with rfl | hin
    · have hnn : n = n' := Option.some.inj (hn.symm.trans hn')
      subst hnn
      cases xs with
      | nil => exact .inr hrest
      | cons w ws => exact .inl (mem_cons_of_mem _ (hrest.1 ▸ mem_cons_self))
    · rcases ih hrest x hin n' hn' with hmem | hend
      · exact .inl (mem_cons_of_mem y hmem)
      · exact .inr hend

/-- A segment depends only on the `next` links of its cells. -/
lemma congr :
    ∀ {xs : List A} {a : A},
      (∀ x ∈ xs, ∀ n, m x = some n → ∃ n', m' x = some n' ∧ next n' = next n) →
      Segment m next a xs z → Segment m' next a xs z := by
  intro xs
  induction xs with
  | nil =>
    intro a _ h
    exact h
  | cons x xs ih =>
    rintro a hsame ⟨hax, n, hn, hrest⟩
    rcases hsame x mem_cons_self n hn with ⟨n', hn', hlink⟩
    refine ⟨hax, n', hn', ?_⟩
    rw [hlink]
    exact ih (fun y hy => hsame y (mem_cons_of_mem x hy)) hrest

lemma singleton (h : m x = some n) : Segment m next x [x] (next n) :=
  ⟨rfl, n, h, rfl⟩

lemma relink (h : Segment m next a (xs ++ [x]) y)
    (hothers : ∀ x' ∈ xs, ∀ n, m x' = some n → ∃ n', m' x' = some n' ∧ next n' = next n)
    (hlast : m' x = some n) : Segment m' next a (xs ++ [x]) (next n) := by
  rcases append_iff.1 h with ⟨b, hxs, hbx, _⟩
  refine append_iff.2 ⟨b, congr hothers hxs, ?_⟩
  rw [hbx]
  exact singleton hlast

/-- The links determine the segment. -/
lemma unique :
    ∀ {xs ys : List A} {a : A}, Segment m next a xs z → Segment m next a ys z → z ∉ xs → z ∉ ys →
      xs = ys := by
  intro xs
  induction xs with
  | nil =>
    intro ys a hxs hys _ hz
    cases ys with
    | nil =>
      rfl
    | cons y ys =>
      have haz : a = z := hxs
      exact absurd mem_cons_self (hys.1 ▸ haz ▸ hz)
  | cons x xs ih =>
    rintro ys a ⟨hax, n, hn, hrest⟩ hys hzx hzy
    cases ys with
    | nil =>
      have haz : a = z := hys
      exact absurd mem_cons_self (hax ▸ haz ▸ hzx)
    | cons y ys =>
      rcases hys with ⟨hay, n', hn', hrest'⟩
      have hxy : x = y := hax.symm.trans hay
      subst hxy
      have hnn : n = n' := Option.some.inj (hn.symm.trans hn')
      subst hnn
      rw [ih hrest hrest' (fun h => hzx (mem_cons_of_mem x h))
        fun h => hzy (mem_cons_of_mem x h)]

/-- A segment that ends passes no node twice. -/
lemma nodup : ∀ {xs : List A} {a : A}, Segment m next a xs z → z ∉ xs → xs.Nodup := by
  intro xs
  induction xs with
  | nil =>
    intro a _ _
    exact nodup_nil
  | cons x xs ih =>
    rintro a ⟨hax, n, hn, hrest⟩ hz
    have hzxs : z ∉ xs := fun h => hz (mem_cons_of_mem x h)
    refine nodup_cons.2 ⟨?_, ih hrest hzxs⟩
    intro hx
    rcases append_of_mem hx with ⟨before, after, rfl⟩
    rcases append_iff.1 hrest with ⟨y, _, hback⟩
    have hyx : y = x := hback.1
    subst hyx
    have hfront : Segment m next y (y :: (before ++ y :: after)) z := ⟨rfl, n, hn, hrest⟩
    have hagain := unique hfront hback hz fun h => hzxs (mem_append_right _ h)
    have hlen := congrArg List.length hagain
    simp only [length_cons, length_append] at hlen
    omega

end Segment

/-! ## Going through a list -/

/-- The loop over a null-terminated list that looks at each node until there is an answer: `none` if it
reaches an address without a node or does not end within `fuel` rounds. -/
def visit [DecidableEq A] (m : A → Option N) (next : N → A) (null : A) (look : A → N → Option R) :
    Nat → A → Option (Option R)
  | 0, _ => none
  | fuel + 1, a =>
    if a = null then
      some none
    else
      match m a with
      | none => none
      | some n =>
        match look a n with
        | some r => some (some r)
        | none => visit m next null look fuel (next n)

/-- The first answer along a list of addresses. -/
def firstAnswer (m : A → Option N) (look : A → N → Option R) (xs : List A) : Option R :=
  xs.findSome? fun x => (m x).bind (look x)

variable {m : A → Option N} {next : N → A} {null : A} {look : A → N → Option R} {r : R}
  {xs : List A}

/-- The loop along the links answers what the first node with an answer does. -/
lemma Segment.visit_eq [DecidableEq A] :
    ∀ {xs : List A} {a : A} {fuel : Nat}, Segment m next a xs null → null ∉ xs →
      xs.length < fuel → visit m next null look fuel a = some (firstAnswer m look xs) := by
  intro xs
  induction xs with
  | nil =>
    intro a fuel h _ hfuel
    have ha : a = null := h
    cases fuel with
    | zero => exact absurd hfuel (Nat.not_lt_zero _)
    | succ fuel => simp [visit, ha, firstAnswer]
  | cons x xs ih =>
    rintro a fuel ⟨hax, n, hn, hrest⟩ hnull hfuel
    subst hax
    have hne : a ≠ null := by
      rintro rfl
      exact hnull mem_cons_self
    cases fuel with
    | zero => exact absurd hfuel (Nat.not_lt_zero _)
    | succ fuel =>
      have hlater := ih hrest (fun hin => hnull (mem_cons_of_mem a hin))
        (Nat.lt_of_succ_lt_succ hfuel)
      cases hlook : look a n with
      | none => simpa [visit, hne, hn, hlook, firstAnswer] using hlater
      | some r => simp [visit, hne, hn, hlook, firstAnswer]

/-- Whatever the links look like: the loop answers from an address it is known to stay within. -/
lemma visit_some [DecidableEq A] {within : A → Prop}
    (hnext : ∀ x n, within x → m x = some n → next n = null ∨ within (next n)) {fuel : Nat} {a : A}
    (ha : a = null ∨ within a) (h : visit m next null look fuel a = some (some r)) :
    ∃ x n, within x ∧ m x = some n ∧ look x n = some r := by
  induction fuel generalizing a with
  | zero => cases h
  | succ fuel ih =>
    unfold visit at h
    split at h
    · cases h
    next hnull =>
    have hin := ha.resolve_left hnull
    split at h
    · cases h
    next n hn =>
    split at h
    · next hlook =>
      cases h
      exact ⟨a, n, hin, hn, hlook⟩
    · exact ih (hnext a n hin hn) h

lemma firstAnswer_some (h : firstAnswer m look xs = some r) :
    ∃ x ∈ xs, ∃ n, m x = some n ∧ look x n = some r := by
  rcases exists_of_findSome?_eq_some h with ⟨x, hx, hr⟩
  rcases Option.bind_eq_some_iff.1 hr with ⟨n, hn, hlook⟩
  exact ⟨x, hx, n, hn, hlook⟩

lemma firstAnswer_none (h : ∀ x ∈ xs, ∀ n, m x = some n → look x n = none) :
    firstAnswer m look xs = none := by
  refine List.findSome?_eq_none_iff.2 ?_
  intro x hx
  cases hn : m x with
  | none => rfl
  | some n => exact h x hx n hn

end SigmaOS.Lib
