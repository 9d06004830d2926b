import SigmaOS.Lib.Locks

/-!
# LockOrder — a gate against deadlocks

Agents deadlock when each agent of a set waits for a lock that another one of the set holds.  A
gate is a spin lock that an agent must hold whenever it waits for a spin lock while it holds one:
then of two agents that wait and are waited for, both would hold the gate.

* `Gated owner gate h as` — the list keeps to this, begun with `h` held;
* `Tidy` — every list is balanced and gated;
* `Alone` — one agent works through any list at all while the others have nothing to do.
-/

namespace SigmaOS.Lib

open List

namespace LockAction

variable {A L : Type} [DecidableEq L]

/-- What is held after the actions, if a release of what is not held is passed over. -/
def leftover : Multiset L → List (LockAction L) → Multiset L
  | h, [] => h
  | h, acquire l :: as => leftover (l ::ₘ h) as
  | h, release l :: as => leftover (h.erase l) as

lemma leftover_of_holds (as : List (LockAction L)) :
    ∀ h h' : Multiset L, holds h as = some h' → leftover h as = h' := by
  induction as with
  | nil =>
    intro h h' hh
    exact Option.some.inj hh
  | cons a as ih =>
    intro h h' hh
    cases a with
    | acquire l => exact ih _ h' hh
    | release l =>
      rw [holds_release] at hh
      split at hh
      · exact ih _ h' hh
      · cases hh

/-- Whoever waits for a spin lock with a spin lock in hand has the gate in hand. -/
def Gated (owner : L → Option A) (gate : L) : Multiset L → List (LockAction L) → Prop
  | _, [] => True
  | h, acquire l :: as =>
    -- a lock with an owner never makes anybody wait, so it counts on neither side
    ((∃ k ∈ h, owner k = none) → owner l = none → gate ∈ h) ∧ Gated owner gate (l ::ₘ h) as
  | h, release l :: as => Gated owner gate (h.erase l) as

variable {owner : L → Option A} {gate : L}

/-- Gated code composes, the second part from what the first leaves held. -/
lemma gated_append (as bs : List (LockAction L)) :
    ∀ h : Multiset L, Gated owner gate h (as ++ bs) ↔
      Gated owner gate h as ∧ Gated owner gate (leftover h as) bs := by
  induction as with
  | nil =>
    intro h
    simp [Gated, leftover]
  | cons a as ih =>
    intro h
    cases a with
    | acquire l =>
      -- the condition on `l` is about `h` alone, the same on both sides
      show _ ∧ Gated owner gate (l ::ₘ h) (as ++ bs) ↔ _
      rw [ih, ← and_assoc]
      rfl
    | release l => exact ih (h.erase l)

/-- The list releases what it acquired, and is gated. -/
def Orderly (owner : L → Option A) (gate : L) (h : Multiset L) (as : List (LockAction L)) : Prop :=
  holds h as = some 0 ∧ Gated owner gate h as

end LockAction

namespace LockState

open Function
open LockAction

variable {A L : Type} [DecidableEq A] [DecidableEq L]

/-- Each agent of the set waits for a lock that another one of the set holds. -/
def Deadlocked (s : LockState A L) (C : A → Prop) : Prop :=
  (∃ a, C a) ∧
    ∀ a, C a → ∃ l rest, s.code a = acquire l :: rest ∧ ∃ b, C b ∧ b ≠ a ∧ l ∈ s.held b

variable {owner : L → Option A} {gate : L} {s t : LockState A L} {a b : A}
  {as : List (LockAction L)}

/-! ## Agents that are in order -/

structure Tidy (owner : L → Option A) (gate : L) (s : LockState A L) : Prop where
  inv : Inv owner { s with misuse := false }
  gated : ∀ a, Gated owner gate (s.held a) (s.code a)

omit [DecidableEq A] in
lemma Tidy.start : Tidy owner gate (start : LockState A L) where
  inv := Inv.start
  gated := fun _ => trivial

omit [DecidableEq A] in
lemma Tidy.holder (h : Tidy owner gate s) {l : L} (hspin : owner l = none) (ha : l ∈ s.held a)
    (hb : l ∈ s.held b) : a = b := by
  rcases h.inv.spin l hspin with hfree | ⟨_, c, _, hothers⟩
  · exact absurd ha (hfree a)
  · have hac : a = c := by_contra fun hne => hothers a hne ha
    have hbc : b = c := by_contra fun hne => hothers b hne hb
    rw [hac, hbc]

omit [DecidableEq A] in
lemma Tidy.spin_of_wait (h : Tidy owner gate s) {l : L} {rest : List (LockAction L)}
    (hcode : s.code a = acquire l :: rest) (hb : l ∈ s.held b) (hba : b ≠ a) : owner l = none := by
  cases hown : owner l with
  | none => rfl
  | some c =>
    -- an owned lock is used by its owner only, so both agents would be the owner
    have hac : c = a := (h.inv.uses a (acquire l)
      (by show acquire l ∈ s.code a; rw [hcode]; exact mem_cons_self)).eq_owner hown
    have hbc : c = b := (h.inv.mine b l hb).eq_owner hown
    exact absurd (hbc.symm.trans hac) hba

omit [DecidableEq A] in
/-- Whoever waits for another agent while a third one waits for it holds the gate. -/
lemma Tidy.holds_gate (h : Tidy owner gate s) {k l : L} {rest : List (LockAction L)}
    (hcode : s.code a = acquire l :: rest) (hl : owner l = none) (hk : k ∈ s.held a)
    (hspin : owner k = none) : gate ∈ s.held a := by
  have hgated := h.gated a
  rw [hcode] at hgated
  exact hgated.1 ⟨k, hk, hspin⟩ hl

omit [DecidableEq A] in
/-- In a tidy state no set of agents is deadlocked. -/
lemma Tidy.not_deadlocked (h : Tidy owner gate s) (hgate : owner gate = none) (C : A → Prop) :
    ¬ s.Deadlocked C := by
  rintro ⟨⟨a, ha⟩, hwait⟩
  -- `a` waits for `b`, which waits for `c`, which waits for somebody
  rcases hwait a ha with ⟨l, _, hcode, b, hb, hba, hheld⟩
  rcases hwait b hb with ⟨l', _, hcode', c, hc, hcb, hheld'⟩
  rcases hwait c hc with ⟨l'', _, hcode'', d, _, hdc, hheld''⟩
  have hspin := h.spin_of_wait hcode hheld hba
  have hspin' := h.spin_of_wait hcode' hheld' hcb
  have hspin'' := h.spin_of_wait hcode'' hheld'' hdc
  -- `b` and `c` wait with a spin lock in hand, so both have the gate
  have hgb : gate ∈ s.held b := h.holds_gate hcode' hspin' hheld hspin
  have hgc : gate ∈ s.held c := h.holds_gate hcode'' hspin'' hheld' hspin'
  exact hcb (h.holder hgate hgc hgb)

/-- Starting orderly code keeps the state tidy. -/
lemma Tidy.begin (h : Tidy owner gate s) (has : Orderly owner gate 0 as)
    (huses : ∀ c ∈ as, MayUse owner a c.lock) (hs : s.begin a as = some t) : Tidy owner gate t := by
  rcases begin_some hs with ⟨hidle, rfl⟩
  have hbegin : ({ s with misuse := false } : LockState A L).begin a as =
      some { s with code := update s.code a as, misuse := false } := if_pos hidle
  refine ⟨h.inv.begin has.1 huses hbegin, ?_⟩
  intro b
  show Gated owner gate (s.held b) (update s.code a as b)
  by_cases hba : b = a
  · subst hba
    -- an agent between two lists holds nothing
    have hnone : s.held b = 0 := h.inv.finished hidle
    rw [update_self, hnone]
    exact has.2
  · rw [update_of_ne hba]
    exact h.gated b

/-- An action of any agent keeps the state tidy. -/
lemma Tidy.act (h : Tidy owner gate s) (hs : s.act owner a = some t) : Tidy owner gate t := by
  have hgated := h.gated a
  rcases act_cases hs with ⟨l, rest, hcode, hfree, rfl⟩ | ⟨l, rest, hcode, rfl⟩
  · rw [hcode] at hgated
    refine ⟨h.inv.acquire_step hcode hfree, ?_⟩
    intro b
    by_cases hba : b = a
    · subst hba
      simpa using hgated.2
    · simpa [update_of_ne hba] using h.gated b
  · rw [hcode] at hgated
    have hrest : Gated owner gate ((s.held a).erase l) rest := hgated
    -- a balanced list releases what it holds, so this is no misuse
    have hinv := h.inv.release_step hcode
    refine ⟨⟨rfl, hinv.balanced, hinv.uses, hinv.mine, hinv.spin, hinv.counts⟩, ?_⟩
    · intro b
      by_cases hba : b = a
      · subst hba
        simpa using hrest
      · simpa [update_of_ne hba] using h.gated b

/-! ## One agent alone -/

structure Alone (owner : L → Option A) (s : LockState A L) (a : A) : Prop where
  others : ∀ b, b ≠ a → s.code b = [] ∧ s.held b = 0
  uses : ∀ c ∈ s.code a, MayUse owner a c.lock
  mine : ∀ l ∈ s.held a, MayUse owner a l
  spin : ∀ l, owner l = none → l ∈ s.held a → s.word l ≠ 0 ∧ (s.held a).count l = 1
  counts : ∀ l b, owner l = some b → s.word l = (s.held b).count l
  settles : leftover (s.held a) (s.code a) = 0

omit [DecidableEq A] in
/-- Nor is one where an agent is alone. -/
lemma Alone.not_deadlocked (h : Alone owner s a) (C : A → Prop) : ¬ s.Deadlocked C := by
  -- only an agent with something to do waits
  have honly : s.Deadlocked C → ∀ b, C b → b = a := by
    rintro ⟨_, hwait⟩ b hb
    by_contra hba
    rcases hwait b hb with ⟨l, rest, hcode, _⟩
    rw [(h.others b hba).1] at hcode
    cases hcode
  intro hdead
  rcases hdead.1 with ⟨b, hb⟩
  rcases hdead.2 b hb with ⟨_, _, _, c, hc, hcb, _⟩
  exact hcb ((honly hdead c hc).trans (honly hdead b hb).symm)

omit [DecidableEq A] in
/-- An agent that works alone may do so in order. -/
lemma Alone.tidy (h : Alone owner s a) (horder : Orderly owner gate (s.held a) (s.code a)) :
    Tidy owner gate s := by
  refine ⟨⟨rfl, ?_, ?_, ?_, ?_, h.counts⟩, ?_⟩
  · intro b
    by_cases hba : b = a
    · rw [hba]
      exact horder.1
    · show holds (s.held b) (s.code b) = some 0
      rw [(h.others b hba).1, (h.others b hba).2]
      rfl
  · intro b c hc
    by_cases hba : b = a
    · rw [hba] at hc ⊢
      exact h.uses c hc
    · have hc' : c ∈ s.code b := hc
      rw [(h.others b hba).1] at hc'
      cases hc'
  · intro b l hl
    by_cases hba : b = a
    · rw [hba] at hl ⊢
      exact h.mine l hl
    · have hl' : l ∈ s.held b := hl
      rw [(h.others b hba).2] at hl'
      exact absurd hl' (Multiset.notMem_zero l)
  · intro l hspin
    -- whoever holds a spin lock is `a`
    have hothers : ∀ b, b ≠ a → l ∉ s.held b := by
      intro b hba
      rw [(h.others b hba).2]
      exact Multiset.notMem_zero l
    by_cases hl : l ∈ s.held a
    · exact .inr ⟨(h.spin l hspin hl).1, a, (h.spin l hspin hl).2, hothers⟩
    · refine .inl fun b => ?_
      by_cases hba : b = a
      · rw [hba]
        exact hl
      · exact hothers b hba
  · intro b
    by_cases hba : b = a
    · rw [hba]
      exact horder.2
    · rw [(h.others b hba).1]
      exact trivial

/-- An agent begins any list while the others have nothing to do. -/
lemma Tidy.alone (h : Tidy owner gate s) (hothers : ∀ b, b ≠ a → s.code b = [])
    (huses : ∀ c ∈ as, MayUse owner a c.lock) (has : leftover 0 as = 0)
    (hs : s.begin a as = some t) : Alone owner t a := by
  rcases begin_some hs with ⟨hidle, rfl⟩
  have hnone : s.held a = 0 := h.inv.finished hidle
  have hself : update s.code a as a = as := update_self ..
  -- of a list that need not be balanced all that is known is what it leaves held
  refine ⟨?_, ?_, ?_, ?_, h.inv.counts, ?_⟩
  · intro b hba
    exact ⟨(update_of_ne hba ..).trans (hothers b hba), h.inv.finished (hothers b hba)⟩
  · intro c hc
    have hc' : c ∈ update s.code a as a := hc
    rw [hself] at hc'
    exact huses c hc'
  · exact h.inv.mine a
  · intro l _ hl
    have hl' : l ∈ s.held a := hl
    rw [hnone] at hl'
    exact absurd hl' (Multiset.notMem_zero l)
  · show leftover (s.held a) (update s.code a as a) = 0
    rw [hnone, hself]
    exact has

/-- The agent takes a lock. -/
lemma Alone.acquire_step {rest : List (LockAction L)} (h : Alone owner s a)
    (hcode : s.code a = acquire l :: rest) (hfree : owner l = none → s.word l = 0) :
    Alone owner
      { word := update s.word l (s.word l + 1)
        held := update s.held a (l ::ₘ s.held a)
        code := update s.code a rest
        misuse := s.misuse } a := by
  have hmay : MayUse owner a l := h.uses (acquire l) (hcode ▸ mem_cons_self)
  have hsettles := h.settles
  rw [hcode] at hsettles
  have hleft : leftover (l ::ₘ s.held a) rest = 0 := hsettles
  refine ⟨?_, ?_, ?_, ?_, fun _ _ => counts_acquire h.counts hmay, by simpa using hleft⟩
  · intro c hca
    exact ⟨(update_of_ne hca ..).trans (h.others c hca).1,
      (update_of_ne hca ..).trans (h.others c hca).2⟩
  · intro c hc
    have hc' : c ∈ rest := by simpa using hc
    exact h.uses c (hcode ▸ mem_cons_of_mem _ hc')
  · intro k hk
    have hk' : k = l ∨ k ∈ s.held a := by simpa using hk
    rcases hk' with rfl | hold
    · exact hmay
    · exact h.mine k hold
  · intro k hspin hk
    by_cases hkl : k = l
    · -- the bit was clear, so the lock was not held
      subst hkl
      have hnot : k ∉ s.held a := fun hold => (h.spin k hspin hold).1 (hfree hspin)
      refine ⟨by simp, ?_⟩
      simp [Multiset.count_eq_zero.2 hnot]
    · have hold : k ∈ s.held a := by simpa [hkl] using hk
      refine ⟨?_, ?_⟩
      · simpa [update_of_ne hkl] using (h.spin k hspin hold).1
      · simpa [Multiset.count_cons_of_ne hkl] using (h.spin k hspin hold).2

/-- The agent releases a lock, held or not. -/
lemma Alone.release_step {rest : List (LockAction L)} (h : Alone owner s a)
    (hcode : s.code a = LockAction.release l :: rest) :
    Alone owner
      { word := update s.word l (if owner l = none then 0 else s.word l - 1)
        held := update s.held a ((s.held a).erase l)
        code := update s.code a rest
        misuse := s.misuse || decide (l ∉ s.held a) } a := by
  have hmay : MayUse owner a l := h.uses (LockAction.release l) (hcode ▸ mem_cons_self)
  have hsettles := h.settles
  rw [hcode] at hsettles
  have hleft : leftover ((s.held a).erase l) rest = 0 := hsettles
  refine ⟨?_, ?_, ?_, ?_, fun _ _ => counts_release h.counts hmay, by simpa using hleft⟩
  · intro c hca
    exact ⟨(update_of_ne hca ..).trans (h.others c hca).1,
      (update_of_ne hca ..).trans (h.others c hca).2⟩
  · intro c hc
    have hc' : c ∈ rest := by simpa using hc
    exact h.uses c (hcode ▸ mem_cons_of_mem _ hc')
  · intro k hk
    have hk' : k ∈ (s.held a).erase l := by simpa using hk
    exact h.mine k (Multiset.mem_of_mem_erase hk')
  · intro k hspin hk
    have hk' : k ∈ (s.held a).erase l := by simpa using hk
    have hone := h.spin k hspin (Multiset.mem_of_mem_erase hk')
    have hkl : k ≠ l := by
      -- the lock was held once at most, and is not held any more
      rintro rfl
      have hpos := Multiset.count_pos.2 hk'
      rw [Multiset.count_erase_self, hone.2] at hpos
      exact absurd hpos (Nat.lt_irrefl 0)
    refine ⟨?_, ?_⟩
    · simpa [update_of_ne hkl] using hone.1
    · simpa [Multiset.count_erase_of_ne hkl] using hone.2

lemma Alone.act (h : Alone owner s a) (hs : s.act owner b = some t) : Alone owner t a := by
  -- the others have no action left
  have hba : b = a := by
    by_contra hne
    rcases act_cases hs with ⟨l, rest, hcode, _⟩ | ⟨l, rest, hcode, _⟩ <;>
    · rw [(h.others b hne).1] at hcode
      cases hcode
  subst hba
  rcases act_cases hs with ⟨l, rest, hcode, hfree, rfl⟩ | ⟨l, rest, hcode, rfl⟩
  · exact h.acquire_step hcode hfree
  · exact h.release_step hcode

def Peaceful (owner : L → Option A) (gate : L) (s : LockState A L) : Prop :=
  Tidy owner gate s ∨ ∃ a, Alone owner s a

omit [DecidableEq A] in
lemma Peaceful.not_deadlocked (h : Peaceful owner gate s) (hgate : owner gate = none)
    (C : A → Prop) : ¬ s.Deadlocked C := by
  rcases h with htidy | ⟨a, halone⟩
  · exact htidy.not_deadlocked hgate C
  · exact halone.not_deadlocked C

lemma Peaceful.act (h : Peaceful owner gate s) (hs : s.act owner a = some t) :
    Peaceful owner gate t := by
  rcases h with htidy | ⟨b, halone⟩
  · exact .inl (htidy.act hs)
  · exact .inr ⟨b, halone.act hs⟩

/-- A list is begun that is in order, or while the others are idle. -/
lemma Peaceful.begin (h : Peaceful owner gate s)
    (hothers : ∀ b, b ≠ a → Orderly owner gate (s.held b) (s.code b))
    (horder : Orderly owner gate 0 as ∨ ∀ b, b ≠ a → s.code b = [])
    (huses : ∀ c ∈ as, MayUse owner a c.lock) (has : leftover 0 as = 0)
    (hs : s.begin a as = some t) : Peaceful owner gate t := by
  -- in either case all agents are in order before the new list is begun
  have htidy : Tidy owner gate s := by
    rcases h with htidy | ⟨b, halone⟩
    · exact htidy
    · by_cases hba : b = a
      · -- the agent that was alone is through with its list
        subst hba
        have hidle := (begin_some hs).1
        have hnone := halone.settles
        rw [hidle] at hnone
        have hheld : s.held b = 0 := hnone
        apply halone.tidy
        rw [hidle, hheld]
        exact ⟨rfl, trivial⟩
      · exact halone.tidy (hothers b hba)
  rcases horder with horderly | hidle
  · exact .inl (htidy.begin horderly huses hs)
  · exact .inr ⟨a, htidy.alone hidle huses has hs⟩

end LockState

end SigmaOS.Lib
