import Mathlib.Data.Multiset.AddSub

/-!
# Locks — agents that acquire and release locks

Agents work through lists of acquire and release actions, in any interleaving.  A lock without an
owner is a spin lock: one bit, which `acquire` waits to find clear and `release` clears whoever set
it.  A lock with an owner is a counter that only its owner uses.

The words of the locks are what the machine has.  Beside them the state records what each agent has
acquired and not yet released, and whether an agent ever released a lock that it did not hold.

* `Balanced as` — on its own, the list releases only what it acquired, and all of that;
* `Inv` — as long as every list is balanced, every lock is held by at most one agent and is released
  by that agent only;
* `Doomed` — a list that releases a lock it does not hold does so in every interleaving.
-/

namespace SigmaOS.Lib

inductive LockAction (L : Type)
  | acquire (l : L)
  | release (l : L)
  deriving DecidableEq

namespace LockAction

variable {L : Type}

def lock : LockAction L → L
  | acquire l => l
  | release l => l

variable [DecidableEq L]

/-- What is held after the actions, or `none` when one of them releases a lock that is not held. -/
def holds : Multiset L → List (LockAction L) → Option (Multiset L)
  | h, [] => some h
  | h, acquire l :: as => holds (l ::ₘ h) as
  | h, release l :: as => if l ∈ h then holds (h.erase l) as else none

def Balanced (as : List (LockAction L)) : Prop :=
  holds 0 as = some 0

instance (as : List (LockAction L)) : Decidable (Balanced as) :=
  inferInstanceAs (Decidable (_ = _))

@[simp] lemma holds_nil (h : Multiset L) : holds h [] = some h := rfl

@[simp] lemma holds_acquire (h : Multiset L) (l : L) (as : List (LockAction L)) :
    holds h (acquire l :: as) = holds (l ::ₘ h) as := rfl

@[simp] lemma holds_release (h : Multiset L) (l : L) (as : List (LockAction L)) :
    holds h (release l :: as) = if l ∈ h then holds (h.erase l) as else none := rfl

lemma holds_append (as bs : List (LockAction L)) :
    ∀ h : Multiset L, holds h (as ++ bs) = (holds h as).bind fun h' => holds h' bs := by
  induction as with
  | nil =>
    intro h
    rfl
  | cons a as ih =>
    intro h
    cases a with
    | acquire l => exact ih (l ::ₘ h)
    | release l =>
      by_cases hl : l ∈ h
      · simpa [hl] using ih (h.erase l)
      · simp [hl]

end LockAction

/-! ## All agents together -/

structure LockState (A L : Type) where
  word : L → Nat
  held : A → Multiset L
  code : A → List (LockAction L)
  misuse : Bool

namespace LockState

open Function
open LockAction

variable {A L : Type} [DecidableEq A] [DecidableEq L]

def start : LockState A L where
  word := fun _ => 0
  held := fun _ => 0
  code := fun _ => []
  misuse := false

/-- An agent that is through with its list gets a new one. -/
def begin (s : LockState A L) (a : A) (as : List (LockAction L)) : Option (LockState A L) :=
  if s.code a = [] then
    some { s with code := Function.update s.code a as }
  else
    none

/-- The next action of an agent.  There is none while it spins, and none if it takes a counter below
zero. -/
def act (owner : L → Option A) (s : LockState A L) (a : A) : Option (LockState A L) :=
  match s.code a with
  | [] => none
  | acquire l :: rest =>
    if owner l = none ∧ s.word l ≠ 0 then
      none
    else
      some
        { word := Function.update s.word l (s.word l + 1)
          held := Function.update s.held a (l ::ₘ s.held a)
          code := Function.update s.code a rest
          misuse := s.misuse }
  | release l :: rest =>
    if owner l ≠ none ∧ s.word l = 0 then
      none
    else
      some
        { word := Function.update s.word l (if owner l = none then 0 else s.word l - 1)
          held := Function.update s.held a ((s.held a).erase l)
          code := Function.update s.code a rest
          misuse := s.misuse || decide (l ∉ s.held a) }

variable {owner : L → Option A} {s t : LockState A L} {a b : A} {l : L}
  {as : List (LockAction L)}

omit [DecidableEq L] in
lemma begin_some (h : s.begin a as = some t) :
    s.code a = [] ∧ t = { s with code := update s.code a as } := by
  unfold begin at h
  split at h
  · next hidle =>
    cases h
    exact ⟨hidle, rfl⟩
  · cases h

/-- An action takes a free lock or releases one. -/
lemma act_cases (h : s.act owner a = some t) :
    (∃ l rest, s.code a = acquire l :: rest ∧ (owner l = none → s.word l = 0) ∧
        t = { word := update s.word l (s.word l + 1)
              held := update s.held a (l ::ₘ s.held a)
              code := update s.code a rest
              misuse := s.misuse }) ∨
      ∃ l rest, s.code a = release l :: rest ∧
        t = { word := update s.word l (if owner l = none then 0 else s.word l - 1)
              held := update s.held a ((s.held a).erase l)
              code := update s.code a rest
              misuse := s.misuse || decide (l ∉ s.held a) } := by
  unfold act at h
  split at h
  · cases h
  · next l rest hcode =>
    split at h
    · cases h
    · next hfree =>
      cases h
      exact .inl ⟨l, rest, hcode, fun hspin => by_contra fun hw => hfree ⟨hspin, hw⟩, rfl⟩
  · next l rest hcode =>
    split at h
    · cases h
    · cases h
      exact .inr ⟨l, rest, hcode, rfl⟩

/-! ## The invariant -/

/-- A spin lock is held by nobody, or its bit is set and one agent holds it, once. -/
def Spin (s : LockState A L) (l : L) : Prop :=
  (∀ a, l ∉ s.held a) ∨
    (s.word l ≠ 0 ∧ ∃ a, (s.held a).count l = 1 ∧ ∀ b, b ≠ a → l ∉ s.held b)

def MayUse (owner : L → Option A) (a : A) (l : L) : Prop :=
  owner l = none ∨ owner l = some a

omit [DecidableEq A] [DecidableEq L] in
lemma MayUse.eq_owner (h : MayUse owner a l) (hown : owner l = some b) : b = a := by
  rcases h with hspin | hmine
  · rw [hown] at hspin
    cases hspin
  · exact Option.some_inj.1 (hown.symm.trans hmine)

structure Inv (owner : L → Option A) (s : LockState A L) : Prop where
  clean : s.misuse = false
  balanced : ∀ a, holds (s.held a) (s.code a) = some 0
  uses : ∀ a, ∀ c ∈ s.code a, MayUse owner a c.lock
  mine : ∀ a, ∀ l ∈ s.held a, MayUse owner a l
  spin : ∀ l, owner l = none → s.Spin l
  counts : ∀ l a, owner l = some a → s.word l = (s.held a).count l

omit [DecidableEq A] in
lemma Inv.start : Inv owner (start : LockState A L) where
  clean := rfl
  balanced := fun _ => rfl
  uses := nofun
  mine := fun _ l hl => absurd hl (Multiset.notMem_zero l)
  spin := fun l _ => .inl fun _ => Multiset.notMem_zero l
  counts := fun l _ _ => (Multiset.count_zero l).symm

omit [DecidableEq A] in
/-- An agent that releases a lock is its only holder. -/
lemma Inv.release (h : Inv owner s) (hcode : s.code a = LockAction.release l :: as) :
    l ∈ s.held a ∧ ∀ b, b ≠ a → l ∉ s.held b := by
  -- the rest of the list is balanced from what the agent holds now, so it holds the lock
  have hheld : l ∈ s.held a := by
    by_contra hnot
    have hbalanced := h.balanced a
    rw [hcode, holds_release, if_neg hnot] at hbalanced
    cases hbalanced
  refine ⟨hheld, ?_⟩
  intro b hba hb
  rcases h.mine a l hheld with hspin | hown
  · rcases h.spin l hspin with hfree | ⟨_, c, _, hothers⟩
    · exact hfree a hheld
    · have hac : a = c := by_contra fun hne => hothers a hne hheld
      exact hothers b (hac ▸ hba) hb
  · exact hba ((h.mine b l hb).eq_owner hown).symm

omit [DecidableEq A] in
lemma Inv.finished (h : Inv owner s) (hcode : s.code a = []) : s.held a = 0 := by
  have hbalanced := h.balanced a
  rw [hcode] at hbalanced
  simpa using hbalanced

/-- A balanced list is begun. -/
lemma Inv.begin (h : Inv owner s) (has : Balanced as) (huses : ∀ c ∈ as, MayUse owner a c.lock)
    (hs : s.begin a as = some t) : Inv owner t := by
  rcases begin_some hs with ⟨hidle, rfl⟩
  refine ⟨h.clean, ?_, ?_, h.mine, h.spin, h.counts⟩
  · intro b
    by_cases hba : b = a
    · subst hba
      show holds (s.held b) (update s.code b as b) = some 0
      rw [update_self, h.finished hidle]
      exact has
    · show holds (s.held b) (update s.code a as b) = some 0
      rw [update_of_ne hba]
      exact h.balanced b
  · intro b c hc
    by_cases hba : b = a
    · subst hba
      have hin : c ∈ as := by simpa using hc
      exact huses c hin
    · have hin : c ∈ s.code b := by simpa [update_of_ne hba] using hc
      exact h.uses b c hin

/-! ## The invariant along an action -/

lemma count_update_cons (held : A → Multiset L) (a b : A) (l k : L) :
    (update held a (l ::ₘ held a) b).count k =
      (held b).count k + if b = a ∧ k = l then 1 else 0 := by
  by_cases hba : b = a
  · subst hba
    rw [update_self, Multiset.count_cons]
    simp
  · simp [hba]

lemma count_update_erase (held : A → Multiset L) (a b : A) (l k : L) :
    (update held a ((held a).erase l) b).count k =
      (held b).count k - if b = a ∧ k = l then 1 else 0 := by
  by_cases hba : b = a
  · subst hba
    by_cases hkl : k = l
    · simp [hkl]
    · simp [hkl, Multiset.count_erase_of_ne hkl]
  · simp [hba]

variable {k : L} {b : A} {rest : List (LockAction L)}

section

variable (hcounts : ∀ k b, owner k = some b → s.word k = (s.held b).count k)
  (hmay : MayUse owner a l) (hk : owner k = some b)
include hcounts hmay hk

lemma counts_acquire :
    update s.word l (s.word l + 1) k =
      (update s.held a (l ::ₘ s.held a) b).count k := by
  rw [count_update_cons]
  by_cases hkl : k = l
  · subst hkl
    rw [if_pos ⟨hmay.eq_owner hk, rfl⟩, ← hcounts k b hk]
    exact update_self _ _ _
  · rw [if_neg fun hand => hkl hand.2, Nat.add_zero, ← hcounts k b hk]
    exact update_of_ne hkl _ _

lemma counts_release :
    update s.word l (if owner l = none then 0 else s.word l - 1) k =
      (update s.held a ((s.held a).erase l) b).count k := by
  rw [count_update_erase]
  by_cases hkl : k = l
  · subst hkl
    have hown : b = a ∧ k = k := ⟨hmay.eq_owner hk, rfl⟩
    have hcounter : owner k ≠ none := by simp [hk]
    rw [if_pos hown, ← hcounts k b hk, if_neg hcounter]
    exact update_self _ _ _
  · have hother : ¬ (b = a ∧ k = l) := fun hand => hkl hand.2
    rw [if_neg hother, Nat.sub_zero, ← hcounts k b hk]
    exact update_of_ne hkl _ _

end

omit [DecidableEq A] in
lemma Spin.congr (h : s.Spin k) (hword : t.word k = s.word k)
    (hcount : ∀ b, (t.held b).count k = (s.held b).count k) : t.Spin k := by
  have hmem : ∀ b, k ∈ t.held b ↔ k ∈ s.held b := by
    intro b
    rw [← Multiset.count_pos, ← Multiset.count_pos, hcount]
  rcases h with hfree | ⟨hset, a, hone, hothers⟩
  · exact .inl fun b hb => hfree b ((hmem b).1 hb)
  · refine .inr ⟨hword ▸ hset, a, (hcount a).trans hone, ?_⟩
    intro b hba hb
    exact hothers b hba ((hmem b).1 hb)

omit [DecidableEq L] in
lemma uses_rest {c : LockAction L} (h : ∀ b, ∀ c ∈ s.code b, MayUse owner b c.lock)
    (hcode : s.code a = c :: rest) : ∀ b, ∀ c ∈ update s.code a rest b, MayUse owner b c.lock := by
  intro b d hd
  by_cases hba : b = a
  · subst hba
    rw [update_self] at hd
    exact h b d (hcode ▸ List.mem_cons_of_mem c hd)
  · rw [update_of_ne hba] at hd
    exact h b d hd

/-- The agent takes a lock. -/
lemma Inv.acquire_step (h : Inv owner s) (hcode : s.code a = acquire l :: rest)
    (hfree : owner l = none → s.word l = 0) :
    Inv owner
      { word := update s.word l (s.word l + 1)
        held := update s.held a (l ::ₘ s.held a)
        code := update s.code a rest
        misuse := s.misuse } := by
  have hmay : MayUse owner a l := h.uses a (acquire l) (hcode ▸ List.mem_cons_self)
  refine ⟨h.clean, ?_, uses_rest h.uses hcode, ?_, ?_, ?_⟩
  · intro b
    by_cases hba : b = a
    · subst hba
      have hbalanced := h.balanced b
      rw [hcode] at hbalanced
      simpa using hbalanced
    · simpa [update_of_ne hba] using h.balanced b
  · intro b k hk
    by_cases hba : b = a
    · subst hba
      have hin : k = l ∨ k ∈ s.held b := by simpa using hk
      rcases hin with rfl | hold
      · exact hmay
      · exact h.mine b k hold
    · have hold : k ∈ s.held b := by simpa [update_of_ne hba] using hk
      exact h.mine b k hold
  · intro k hk
    by_cases hkl : k = l
    · subst hkl
      -- the bit was clear, so nobody held the lock
      have hnone : ∀ b, k ∉ s.held b := by
        rcases h.spin k hk with hnone | ⟨hset, _⟩
        · exact hnone
        · exact absurd (hfree hk) hset
      refine .inr ⟨by simp, a, ?_, ?_⟩
      · simp [Multiset.count_eq_zero.2 (hnone a)]
      · intro b hba
        simpa [update_of_ne hba] using hnone b
    · refine (h.spin k hk).congr (update_of_ne hkl _ _) ?_
      intro b
      rw [count_update_cons, if_neg fun hand => hkl hand.2, Nat.add_zero]
  · exact fun _ _ => counts_acquire h.counts hmay

/-- The agent releases a lock that it holds. -/
lemma Inv.release_step (h : Inv owner s) (hcode : s.code a = LockAction.release l :: rest) :
    Inv owner
      { word := update s.word l (if owner l = none then 0 else s.word l - 1)
        held := update s.held a ((s.held a).erase l)
        code := update s.code a rest
        misuse := s.misuse || decide (l ∉ s.held a) } := by
  have hmay : MayUse owner a l := h.uses a (LockAction.release l) (hcode ▸ List.mem_cons_self)
  rcases h.release hcode with ⟨hheld, hothers⟩
  have hkeep : ∀ b k, k ∈ update s.held a ((s.held a).erase l) b → k ∈ s.held b := by
    intro b k hk
    rw [← Multiset.count_pos, count_update_erase] at hk
    rw [← Multiset.count_pos]
    exact Nat.lt_of_lt_of_le hk (Nat.sub_le _ _)
  refine ⟨?_, ?_, uses_rest h.uses hcode, fun b k hk => h.mine b k (hkeep b k hk), ?_, ?_⟩
  · simp [h.clean, hheld]
  · intro b
    by_cases hba : b = a
    · subst hba
      have hbalanced := h.balanced b
      rw [hcode, holds_release, if_pos hheld] at hbalanced
      simpa using hbalanced
    · simpa [update_of_ne hba] using h.balanced b
  · intro k hk
    by_cases hkl : k = l
    · subst hkl
      -- the agent held the lock once, and nobody else did
      have hone : (s.held a).count k = 1 := by
        rcases h.spin k hk with hnone | ⟨_, c, hone, hrest⟩
        · exact absurd hheld (hnone a)
        · have hac : a = c := by_contra fun hne => hrest a hne hheld
          rw [hac]
          exact hone
      refine .inl ?_
      intro b hb
      by_cases hba : b = a
      · subst hba
        rw [← Multiset.count_pos, count_update_erase, if_pos ⟨rfl, rfl⟩, hone] at hb
        exact absurd hb (Nat.lt_irrefl 0)
      · exact hothers b hba (hkeep b k hb)
    · refine (h.spin k hk).congr (update_of_ne hkl _ _) ?_
      intro b
      rw [count_update_erase, if_neg fun hand => hkl hand.2, Nat.sub_zero]
  · exact fun _ _ => counts_release h.counts hmay

lemma Inv.act (h : Inv owner s) (hs : s.act owner a = some t) : Inv owner t := by
  rcases act_cases hs with ⟨l, rest, hcode, hfree, rfl⟩ | ⟨l, rest, hcode, rfl⟩
  · exact h.acquire_step hcode hfree
  · exact h.release_step hcode

/-- A lock was released by an agent that did not hold it, or what is left of the list of `a` will do
that. -/
def Doomed (s : LockState A L) (a : A) : Prop :=
  s.misuse = true ∨ holds (s.held a) (s.code a) = none

/-- Code begun elsewhere does not rescue a doomed agent. -/
lemma Doomed.begin (h : s.Doomed a) (hs : s.begin b as = some t) : t.Doomed a := by
  rcases begin_some hs with ⟨hidle, rfl⟩
  rcases h with hmisuse | hlist
  · exact .inl hmisuse
  · by_cases hab : a = b
    · -- only an agent that is through with its list begins a new one
      subst hab
      rw [hidle] at hlist
      cases hlist
    · refine .inr ?_
      show holds (s.held a) (update s.code b as a) = none
      rw [update_of_ne hab]
      exact hlist

/-- What the others do does not help. -/
lemma Doomed.act (h : s.Doomed a) (hs : s.act owner b = some t) : t.Doomed a := by
  rcases act_cases hs with ⟨l, rest, hcode, _, rfl⟩ | ⟨l, rest, hcode, rfl⟩
  · rcases h with hmisuse | hlist
    · exact .inl hmisuse
    · refine .inr ?_
      by_cases hab : a = b
      · subst hab
        rw [hcode] at hlist
        simpa using hlist
      · simpa [update_of_ne hab] using hlist
  · rcases h with hmisuse | hlist
    · exact .inl (by simp [hmisuse])
    · by_cases hab : a = b
      · subst hab
        rw [hcode, holds_release] at hlist
        by_cases hheld : l ∈ s.held a
        · rw [if_pos hheld] at hlist
          exact .inr (by simpa using hlist)
        · exact .inl (by simp [hheld])
      · exact .inr (by simpa [update_of_ne hab] using hlist)

omit [DecidableEq A] in
lemma Doomed.finished (h : s.Doomed a) (hcode : s.code a = []) : s.misuse = true := by
  rcases h with hmisuse | hlist
  · exact hmisuse
  · rw [hcode] at hlist
    cases hlist

end LockState

end SigmaOS.Lib
