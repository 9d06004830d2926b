import SigmaOS.Lib.LinkedList
import SigmaOS.Proc.Scheduler

/-!
# Proc.SchedulePick — which thread `schedule` picks

`schedule` goes through `thread_list` by its links: from the current thread to the end and then
from the head to the current thread, or from the head to the end when there is no current thread.
The check of a thread has a side effect, a trigger of its event is taken, but only if the thread is
accepted.
-/

namespace SigmaOS.Proc.Process

open Lib List Option

/-! ## The list and its search -/

/-- The address of an entry of `thread_list`, and of the thread in it; 0 is the null pointer. -/
abbrev ThreadPtr := Nat

/-- An entry of `thread_list`, as far as `schedule` looks at it. -/
structure ThreadEntry where
  tid : Tid
  state : ThreadState
  event : Event
  next : ThreadPtr
  deriving DecidableEq

structure ThreadList where
  entries : ThreadPtr → Option ThreadEntry
  head : ThreadPtr
  /-- The counts of the events. -/
  counts : Event → Nat
  /-- `scheduling_queue`; `pop` takes the last element. -/
  queue : List Tid

namespace ThreadList

def hasTriggered (s : ThreadList) (event : Event) : Bool × ThreadList :=
  if s.counts event = 0 then
    -- the exchange has written back the 0 that was there
    (false, s)
  else
    (true, { s with counts := Function.update s.counts event (s.counts event - 1) })

/-- `check_thread`; a thread that is not accepted leaves everything as it was. -/
def checkThread (s : ThreadList) (p : ThreadPtr) (entry : ThreadEntry) : Option ThreadList :=
  match entry.state with
  | .idle => some s
  | .blocked =>
    match s.hasTriggered entry.event with
    | (true, s') =>
      some { s' with entries := Function.update s'.entries p (some { entry with state := .idle }) }
    | (false, _) => none
  | _ => none

/-- The thread that a loop has returned, with the state after the check. -/
def outcome (s : ThreadList) :
    Option (ThreadPtr × ThreadList) → Option ThreadPtr × ThreadList
  | some (p, s') => (some p, s')
  | none => (none, s)

/-- The loop from `it` to `fin` that returns the first thread that passes the check. -/
def scan (s : ThreadList) (fuel : Nat) (it fin : ThreadPtr) :
    Option (Option ThreadPtr × ThreadList) :=
  (visit s.entries ThreadEntry.next fin (fun p entry => (s.checkThread p entry).map (Prod.mk p))
    fuel it).map s.outcome

/-- `get_iterator_for_item`: the entry, or null. -/
def getIteratorForItem (s : ThreadList) (fuel : Nat) (item : ThreadPtr) : Option ThreadPtr :=
  (visit s.entries ThreadEntry.next 0 (fun p _ => if p = item then some p else none)
    fuel s.head).map fun entry => entry.getD 0

def roundRobin (s : ThreadList) (fuel : Nat) (current : ThreadPtr) :
    Option (Option ThreadPtr × ThreadList) :=
  if current = 0 then
    s.scan fuel s.head 0
  else
    match s.getIteratorForItem fuel current with
    | none => none
    | some currentIt =>
      if currentIt = 0 then
        some (none, s)
      else
        match s.scan fuel currentIt 0 with
        | some (none, s') => s'.scan fuel s'.head currentIt
        | result => result

/-- `schedule`; `none` is the PANIC for a tid in the queue that no thread has, a link to no entry, or
a loop that has not ended within `fuel` rounds. -/
def schedule (s : ThreadList) (fuel : Nat) (current : ThreadPtr) :
    Option (Option ThreadPtr × ThreadList) :=
  match s.queue.getLast? with
  | some tid =>
    let s' := { s with queue := s.queue.dropLast }
    match visit s'.entries ThreadEntry.next 0
      (fun p entry => if entry.tid = tid then some p else none) fuel s'.head with
    | some (some p) => some (some p, s')
    | _ => none
  | none => s.roundRobin fuel current

/-! ## What is picked -/

def Ready (s : ThreadList) (p : ThreadPtr) : Prop :=
  ∃ entry, s.entries p = some entry ∧
    (entry.state = .idle ∨ entry.state = .blocked ∧ 0 < s.counts entry.event)

/-- The list in the order of the search: from `current` on, and around. -/
def searchOrder (xs : List ThreadPtr) (current : ThreadPtr) : List ThreadPtr :=
  if current = 0 then xs
  else xs.dropWhile (fun p => p ≠ current) ++ xs.takeWhile (fun p => p ≠ current)

/-- The blocked thread in `p` becomes idle, and the count of its event drops by one. -/
def wake (s : ThreadList) (p : ThreadPtr) (entry : ThreadEntry) : ThreadList :=
  { s with
    entries := Function.update s.entries p (some { entry with state := .idle })
    counts := Function.update s.counts entry.event (s.counts entry.event - 1) }

/-- `p` is the first thread of `order` that is ready, and from `s` to `s'` nothing changes, except that
a blocked `p` becomes idle and the count of its event drops by one. -/
structure Picks (s : ThreadList) (order : List ThreadPtr) (p : ThreadPtr) (s' : ThreadList) :
    Prop where
  ready : s.Ready p
  first : ∃ before after, order = before ++ p :: after ∧ ∀ q ∈ before, ¬ s.Ready q
  effect : ∃ entry, s.entries p = some entry ∧
    (entry.state = .idle ∧ s' = s ∨ entry.state = .blocked ∧ s' = s.wake p entry)

def DistinctEvents (s : ThreadList) (xs : List ThreadPtr) : Prop :=
  ∀ p ∈ xs, ∀ q ∈ xs, ∀ e f, s.entries p = some e → s.entries q = some f → p ≠ q →
    e.state = .blocked → f.state = .blocked → e.event ≠ f.event

variable {s s' : ThreadList} {p q current : ThreadPtr} {entry : ThreadEntry} {fuel : Nat}
  {xs ys : List ThreadPtr}

lemma checkThread_cases (h : s.checkThread p entry = some s') :
    (entry.state = .idle ∧ s' = s) ∨
      (entry.state = .blocked ∧ 0 < s.counts entry.event ∧ s' = s.wake p entry) := by
  unfold checkThread at h
  split at h
  · next hstate =>
    cases h
    exact .inl ⟨hstate, rfl⟩
  · next hstate =>
    unfold hasTriggered at h
    by_cases hzero : s.counts entry.event = 0
    · rw [if_pos hzero] at h
      cases h
    · rw [if_neg hzero] at h
      cases h
      exact .inr ⟨hstate, Nat.pos_of_ne_zero hzero, rfl⟩
  · cases h

/-- A thread is taken iff it is ready. -/
lemma checkThread_isSome (hp : s.entries p = some entry) :
    (s.checkThread p entry).isSome ↔ s.Ready p := by
  constructor
  · intro h
    rcases isSome_iff_exists.1 h with ⟨s', hs⟩
    refine ⟨entry, hp, ?_⟩
    rcases checkThread_cases hs with ⟨hidle, _⟩ | ⟨hblocked, hpos, _⟩
    · exact .inl hidle
    · exact .inr ⟨hblocked, hpos⟩
  · rintro ⟨e, he, hready⟩
    have hee : e = entry := Option.some.inj (he.symm.trans hp)
    subst hee
    rcases hready with hidle | ⟨hblocked, hpos⟩
    · simp [checkThread, hidle]
    · simp [checkThread, hasTriggered, hblocked, Nat.ne_of_gt hpos]

def firstPick (s : ThreadList) (ys : List ThreadPtr) : Option (ThreadPtr × ThreadList) :=
  firstAnswer s.entries (fun p entry => (s.checkThread p entry).map (Prod.mk p)) ys

lemma firstPick_append : s.firstPick (xs ++ ys) = (s.firstPick xs).or (s.firstPick ys) :=
  List.findSome?_append

lemma firstPick_none (hready : ∀ q ∈ ys, ¬ s.Ready q) : s.firstPick ys = none := by
  refine firstAnswer_none ?_
  intro q hq e he
  have hcheck : ¬ (s.checkThread q e).isSome := mt (checkThread_isSome he).1 (hready q hq)
  rw [not_isSome_iff_eq_none.1 hcheck]
  rfl

lemma firstPick_isSome (hq : q ∈ ys) (hready : s.Ready q) : (s.firstPick ys).isSome := by
  rcases hready with ⟨e, he, hstate⟩
  rcases isSome_iff_exists.1 ((checkThread_isSome he).2 ⟨e, he, hstate⟩) with ⟨s', hs⟩
  refine List.findSome?_isSome_iff.2 ⟨q, hq, ?_⟩
  simp [he, hs]

/-- The thread returned is the first ready one of the list. -/
lemma firstPick_picks (h : s.firstPick ys = some (p, s')) : s.Picks ys p s' := by
  rcases List.findSome?_eq_some_iff.1 h with ⟨before, q, after, hys, hq, hbefore⟩
  rcases bind_eq_some_iff.1 hq with ⟨e, he, hlook⟩
  rcases map_eq_some_iff.1 hlook with ⟨r, hr, hpair⟩
  cases hpair
  refine ⟨(checkThread_isSome he).1 (by simp [hr]), ⟨before, after, hys, ?_⟩, e, he, ?_⟩
  · intro u hu hready
    rcases hready with ⟨f, hf, hstate⟩
    have hnone := hbefore u hu
    rcases isSome_iff_exists.1 ((checkThread_isSome hf).2 ⟨f, hf, hstate⟩) with ⟨t, ht⟩
    simp [hf, ht] at hnone
  · rcases checkThread_cases hr with ⟨hidle, hs⟩ | ⟨hblocked, _, hs⟩
    · exact .inl ⟨hidle, hs⟩
    · exact .inr ⟨hblocked, hs⟩

lemma scan_eq {it fin : ThreadPtr} (hseg : Segment s.entries ThreadEntry.next it ys fin)
    (hfin : fin ∉ ys) (hfuel : ys.length < fuel) :
    s.scan fuel it fin = some (s.outcome (s.firstPick ys)) := by
  rw [scan, hseg.visit_eq hfin hfuel]
  rfl

/-- The current thread is found in the list. -/
lemma getIteratorForItem_eq (hlist : Segment s.entries ThreadEntry.next s.head xs 0)
    (hnull : 0 ∉ xs) (hfuel : xs.length < fuel) (hcurrent : current ∈ xs) :
    s.getIteratorForItem fuel current = some current := by
  have hfound : firstAnswer s.entries (fun p _ => if p = current then some p else none) xs =
      some current := by
    rcases hlist.stored current hcurrent with ⟨e, he⟩
    have hsome : (firstAnswer s.entries (fun p _ => if p = current then some p else none)
        xs).isSome := by
      refine List.findSome?_isSome_iff.2 ⟨current, hcurrent, ?_⟩
      simp [he]
    rcases isSome_iff_exists.1 hsome with ⟨r, hr⟩
    rcases firstAnswer_some hr with ⟨x, _, n, _, hlook⟩
    have hrc : r = current := by
      split at hlook
      · rename_i hx
        exact (Option.some.inj hlook).symm.trans hx
      · cases hlook
    rw [hr, hrc]
  rw [getIteratorForItem, hlist.visit_eq hnull hfuel, hfound]
  rfl

lemma searchOrder_of_mem {before rest : List ThreadPtr} (hne : current ≠ 0)
    (hfirst : current ∉ before) :
    searchOrder (before ++ current :: rest) current = current :: rest ++ before := by
  have hall : ∀ p ∈ before, decide (p ≠ current) = true := by
    intro p hp
    have hpc : p ≠ current := fun heq => hfirst (heq ▸ hp)
    simpa using hpc
  rw [searchOrder, if_neg hne, dropWhile_append_of_pos hall, takeWhile_append_of_pos hall]
  simp

/-- The two loops search from the current thread on, and then from the head. -/
lemma roundRobin_eq (hlist : Segment s.entries ThreadEntry.next s.head xs 0) (hnull : 0 ∉ xs)
    (hfuel : xs.length < fuel) (hcurrent : current = 0 ∨ current ∈ xs) :
    s.roundRobin fuel current = some (s.outcome (s.firstPick (searchOrder xs current))) := by
  by_cases hzero : current = 0
  · rw [roundRobin, if_pos hzero, searchOrder, if_pos hzero, scan_eq hlist hnull hfuel]
  · have hmem : current ∈ xs := hcurrent.resolve_left hzero
    rw [roundRobin, if_neg hzero, getIteratorForItem_eq hlist hnull hfuel hmem]
    dsimp only
    rw [if_neg hzero]
    -- the current thread is where the two loops divide the list
    rcases eq_append_cons_of_mem hmem with ⟨before, rest, rfl, hfirst⟩
    rcases Segment.append_iff.1 hlist with ⟨y, hfront, hback⟩
    have hy : y = current := hback.1
    subst hy
    rw [length_append] at hfuel
    have hbackNull : 0 ∉ y :: rest := fun h => hnull (mem_append_right _ h)
    rw [searchOrder_of_mem hzero hfirst, firstPick_append, scan_eq hback hbackNull (by omega)]
    cases hpick : s.firstPick (y :: rest) with
    | none =>
      show s.scan fuel s.head y = _
      rw [scan_eq hfront hfirst (by omega), none_or]
    | some r => rfl

lemma mem_searchOrder (hcurrent : current = 0 ∨ current ∈ xs) :
    p ∈ searchOrder xs current ↔ p ∈ xs := by
  by_cases hzero : current = 0
  · rw [searchOrder, if_pos hzero]
  · rcases eq_append_cons_of_mem (hcurrent.resolve_left hzero) with ⟨before, rest, rfl, hfirst⟩
    rw [searchOrder_of_mem hzero hfirst, mem_append, mem_append]
    exact or_comm

/-- A pick changes nothing of the other threads. -/
lemma Picks.others (h : s.Picks ys p s') {e : ThreadEntry} (hp : s.entries p = some e)
    (hother : ∀ f, s.entries q = some f → e.state = .blocked → f.state = .blocked →
      e.event ≠ f.event) (hqp : q ≠ p) :
    s'.entries q = s.entries q ∧
      (∀ f, s.entries q = some f → f.state = .blocked → s'.counts f.event = s.counts f.event) ∧
      (s'.Ready q ↔ s.Ready q) := by
  rcases h.effect with ⟨e', he', hcase⟩
  have hee : e' = e := Option.some.inj (he'.symm.trans hp)
  subst hee
  rcases hcase with ⟨_, rfl⟩ | ⟨hblocked, rfl⟩
  · exact ⟨rfl, fun _ _ _ => rfl, Iff.rfl⟩
  · have hentry : Function.update s.entries p (some { e' with state := .idle }) q = s.entries q :=
      Function.update_of_ne hqp _ _
    have hcount : ∀ f, s.entries q = some f → f.state = .blocked →
        Function.update s.counts e'.event (s.counts e'.event - 1) f.event = s.counts f.event :=
      fun f hf hstate => Function.update_of_ne (hother f hf hblocked hstate).symm _ _
    refine ⟨hentry, hcount, ?_⟩
    unfold Ready wake
    dsimp only
    rw [hentry]
    refine exists_congr fun f => and_congr_right fun hf => or_congr_right (and_congr_right ?_)
    intro hstate
    rw [hcount f hf hstate]

end ThreadList

/-- On every list, with an empty queue and a current thread that is null or in the list, `schedule`
returns null exactly when no thread is ready, and otherwise the first thread that is ready, from the
current one on and around; where the threads wait on distinct events, no wakeup of another is
consumed. -/
theorem schedule_pick {s : ThreadList} {xs : List ThreadPtr} {current : ThreadPtr} {fuel : Nat}
    (hlist : Segment s.entries ThreadEntry.next s.head xs 0) (hnull : 0 ∉ xs) (hqueue : s.queue = [])
    (hcurrent : current = 0 ∨ current ∈ xs) (hfuel : xs.length < fuel) :
    (s.schedule fuel current = some (none, s) ↔ ∀ q ∈ xs, ¬ s.Ready q) ∧
      ((∃ q ∈ xs, s.Ready q) → ∃ p s', p ∈ xs ∧ s.schedule fuel current = some (some p, s') ∧
        s.Picks (ThreadList.searchOrder xs current) p s' ∧
        (s.DistinctEvents xs → ∀ q ∈ xs, q ≠ p →
          s'.entries q = s.entries q ∧
          (∀ f, s.entries q = some f → f.state = .blocked →
            s'.counts f.event = s.counts f.event) ∧
          (s'.Ready q ↔ s.Ready q))) := by
  have hschedule : s.schedule fuel current =
      some (s.outcome (s.firstPick (ThreadList.searchOrder xs current))) := by
    rw [ThreadList.schedule, hqueue]
    exact ThreadList.roundRobin_eq hlist hnull hfuel hcurrent
  have hready : (∃ q ∈ xs, s.Ready q) →
      (s.firstPick (ThreadList.searchOrder xs current)).isSome := by
    rintro ⟨q, hq, hr⟩
    exact ThreadList.firstPick_isSome ((ThreadList.mem_searchOrder hcurrent).2 hq) hr
  rw [hschedule]
  refine ⟨⟨?_, ?_⟩, ?_⟩
  · intro hnone q hq hr
    rcases Option.isSome_iff_exists.1 (hready ⟨q, hq, hr⟩) with ⟨r, hpick⟩
    rw [hpick] at hnone
    simp [ThreadList.outcome] at hnone
  · intro hnone
    have hpick : s.firstPick (ThreadList.searchOrder xs current) = none :=
      ThreadList.firstPick_none fun q hq => hnone q ((ThreadList.mem_searchOrder hcurrent).1 hq)
    rw [hpick]
    rfl
  · intro hex
    rcases Option.isSome_iff_exists.1 (hready hex) with ⟨⟨p, s'⟩, hpick⟩
    have hpicks := ThreadList.firstPick_picks hpick
    have hp : p ∈ xs := by
      rcases hpicks.first with ⟨before, after, horder, _⟩
      refine (ThreadList.mem_searchOrder hcurrent).1 ?_
      rw [horder]
      simp
    refine ⟨p, s', hp, by rw [hpick]; rfl, hpicks, ?_⟩
    intro hdistinct q hq hqp
    rcases hlist.stored p hp with ⟨e, he⟩
    refine hpicks.others he ?_ hqp
    intro f hf hblocked hstate
    exact hdistinct p hp q hq e f he hf hqp.symm hblocked hstate

/-- Two threads wait on triggered events behind the current one, a third is the current one: the search
wraps around, takes the first and leaves the wakeup of the second. -/
def sampleThreads : ThreadList :=
  { entries := fun p => match p with
      | 1 => some { tid := 0, state := .blocked, event := 5, next := 2 }
      | 2 => some { tid := 1, state := .blocked, event := 6, next := 3 }
      | 3 => some { tid := 2, state := .running, event := 0, next := 0 }
      | _ => none
    head := 1
    counts := fun _ => 1
    queue := [] }

lemma sampleThreads_distinct : sampleThreads.DistinctEvents [1, 2, 3] := by
  intro p hp q hq e f he hf hpq hblocked hstate
  simp only [mem_cons, not_mem_nil, or_false] at hp hq
  rcases hp with rfl | rfl | rfl <;> rcases hq with rfl | rfl | rfl <;> cases he <;> cases hf <;>
    simp_all

theorem schedule_pick_sample :
    ∃ p s', sampleThreads.schedule 4 3 = some (some p, s') ∧
      sampleThreads.Picks [3, 1, 2] p s' ∧ (2 ≠ p → (s'.Ready 2 ↔ sampleThreads.Ready 2)) := by
  have hlist : Segment sampleThreads.entries ThreadEntry.next sampleThreads.head [1, 2, 3] 0 :=
    ⟨rfl, _, rfl, rfl, _, rfl, rfl, _, rfl, rfl⟩
  have hready : sampleThreads.Ready 1 := ⟨_, rfl, Or.inr ⟨rfl, by decide⟩⟩
  have hcurrent : 3 = 0 ∨ 3 ∈ [1, 2, 3] := Or.inr (by decide)
  have hfuel : [1, 2, 3].length < 4 := by decide
  rcases (schedule_pick hlist (by decide) rfl hcurrent hfuel).2 ⟨1, by decide, hready⟩ with
    ⟨p, s', _, hschedule, hpicks, hothers⟩
  exact ⟨p, s', hschedule, hpicks, fun hne =>
    (hothers sampleThreads_distinct 2 (by decide) hne).2.2⟩

/-! ## The slots of `Sched` -/

/-- The entries of the list, in its order, are the slots of `S`. -/
structure ThreadList.Slots (s : ThreadList) (xs : List ThreadPtr) (S : Sched) : Prop where
  count : S.count = xs.length
  tasks : ∀ i p, xs[i]? = some p → ∃ entry, s.entries p = some entry ∧
    S.tasks i = { state := entry.state, event := entry.event }
  triggers : S.triggers = s.counts

namespace ThreadList.Slots

variable {s s' : ThreadList} {S S' : Sched} {xs ps : List ThreadPtr} {p : ThreadPtr} {t : Tid}
  {ts : List Tid} {entry : ThreadEntry}

/-- A check on the list is the check on the slots. -/
lemma checkThread (h : s.Slots xs S) (hnodup : xs.Nodup) (ht : xs[t]? = some p)
    (hp : s.entries p = some entry) :
    (s.checkThread p entry = none ∧ S.checkThread t = none) ∨
      ∃ s' S', s.checkThread p entry = some s' ∧ S.checkThread t = some S' ∧ s'.Slots xs S' := by
  rcases h.tasks t p ht with ⟨e, he, htask⟩
  have hee : e = entry := Option.some.inj (he.symm.trans hp)
  subst hee
  cases hstate : e.state with
  | idle =>
    refine .inr ⟨s, S, ?_, ?_, h⟩
    · simp [ThreadList.checkThread, hstate]
    · simp [Sched.checkThread, htask, hstate]
  | blocked =>
    by_cases hzero : s.counts e.event = 0
    · refine .inl ⟨?_, ?_⟩
      · simp [ThreadList.checkThread, hasTriggered, hstate, hzero]
      · simp [Sched.checkThread, htask, hstate, h.triggers, hzero]
    · refine .inr ⟨s.wake p e,
        (S.setTriggers e.event (S.triggers e.event - 1)).setState t .idle, ?_, ?_, ?_⟩
      · simp [ThreadList.checkThread, hasTriggered, wake, hstate, hzero]
      · simp [Sched.checkThread, htask, hstate, h.triggers, hzero]
      · refine ⟨h.count, ?_, ?_⟩
        · intro i q hq
          by_cases hit : i = t
          · subst hit
            have hpq : p = q := Option.some.inj (ht.symm.trans hq)
            subst hpq
            refine ⟨{ e with state := .idle }, by simp [wake], ?_⟩
            simp [Sched.setState, Sched.setTriggers, htask]
          · -- no other slot is in the entry that has changed
            have hqp : q ≠ p := by
              rintro rfl
              have hlt := (List.getElem?_eq_some_iff.1 hq).1
              exact hit ((List.getElem?_inj hlt hnodup).1 (hq.trans ht.symm))
            rcases h.tasks i q hq with ⟨f, hf, htask'⟩
            refine ⟨f, by simpa [wake, hqp] using hf, ?_⟩
            simpa [Sched.setState, Sched.setTriggers, hit] using htask'
        · simp [Sched.setState, Sched.setTriggers, wake, h.triggers]
  | disabled =>
    exact .inl ⟨by simp [ThreadList.checkThread, hstate],
      by simp [Sched.checkThread, htask, hstate]⟩
  | running =>
    exact .inl ⟨by simp [ThreadList.checkThread, hstate],
      by simp [Sched.checkThread, htask, hstate]⟩
  | silent =>
    exact .inl ⟨by simp [ThreadList.checkThread, hstate],
      by simp [Sched.checkThread, htask, hstate]⟩

/-- So is the search. -/
lemma firstReady (h : s.Slots xs S) (hnodup : xs.Nodup)
    (hrel : List.Forall₂ (fun t p => xs[t]? = some p) ts ps) :
    (s.firstPick ps = none ∧ S.firstReady ts = none) ∨
      ∃ t p s' S', s.firstPick ps = some (p, s') ∧ S.firstReady ts = some (t, S') ∧
        xs[t]? = some p ∧ s'.Slots xs S' := by
  induction hrel with
  | nil => exact .inl ⟨rfl, rfl⟩
  | @cons t p ts ps ht _ ih =>
    rcases h.tasks t p ht with ⟨e, he, _⟩
    have hpick : s.firstPick (p :: ps) =
        ((s.checkThread p e).map (Prod.mk p)).or (s.firstPick ps) := by
      cases hcheck : s.checkThread p e with
      | none => simp [firstPick, firstAnswer, he, hcheck]
      | some r => simp [firstPick, firstAnswer, he, hcheck]
    rcases h.checkThread hnodup ht he with ⟨hs, hS⟩ | ⟨s', S', hs, hS, hslots⟩
    · rw [hpick, hs, Sched.firstReady, hS]
      exact ih
    · refine .inr ⟨t, p, s', S', ?_, ?_, ht, hslots⟩
      · rw [hpick, hs]
        rfl
      · rw [Sched.firstReady, hS]

lemma forall₂_range : List.Forall₂ (fun t p => xs[t]? = some p) (List.range xs.length) xs := by
  refine forall₂_iff_get.2 ⟨by simp, ?_⟩
  intro i hi hi'
  simp

end ThreadList.Slots

/-- The search over the links of the list is the search over its slots: what `ThreadList.schedule`
returns for a current entry is what `Sched.schedule` returns for its slot. -/
theorem schedule_refines {s : ThreadList} {S : Sched} {xs : List ThreadPtr} {current : ThreadPtr}
    {slot : Option Tid} {fuel : Nat} (hlist : Segment s.entries ThreadEntry.next s.head xs 0)
    (hnull : 0 ∉ xs) (hqueue : s.queue = []) (hfuel : xs.length < fuel) (hslots : s.Slots xs S)
    (hslot : current = 0 ∧ slot = none ∨ ∃ t, slot = some t ∧ xs[t]? = some current) :
    (s.schedule fuel current = some (none, s) ∧ S.schedule slot = none) ∨
      ∃ t p s' S', s.schedule fuel current = some (some p, s') ∧ S.schedule slot = some (t, S') ∧
        xs[t]? = some p ∧ s'.Slots xs S' := by
  have hnodup := hlist.nodup hnull
  have hrange : List.Forall₂ (fun t p => xs[t]? = some p) (List.range xs.length) xs :=
    ThreadList.Slots.forall₂_range
  have hcurrent : current = 0 ∨ current ∈ xs := by
    rcases hslot with ⟨hzero, _⟩ | ⟨t, _, ht⟩
    · exact .inl hzero
    · exact .inr (mem_of_getElem? ht)
  have hschedule : s.schedule fuel current =
      some (s.outcome (s.firstPick (ThreadList.searchOrder xs current))) := by
    rw [ThreadList.schedule, hqueue]
    exact ThreadList.roundRobin_eq hlist hnull hfuel hcurrent
  -- the slots in the order of the search
  have horder : ∃ ts, S.schedule slot = S.firstReady ts ∧
      List.Forall₂ (fun t p => xs[t]? = some p) ts (ThreadList.searchOrder xs current) := by
    rcases hslot with ⟨rfl, rfl⟩ | ⟨t, rfl, ht⟩
    · refine ⟨List.range S.count, rfl, ?_⟩
      rw [hslots.count]
      exact hrange
    · rcases List.getElem?_eq_some_iff.1 ht with ⟨hlt, hget⟩
      refine ⟨(List.range S.count).drop t ++ (List.range S.count).take t, ?_, ?_⟩
      · rw [Sched.schedule, if_pos (by rw [hslots.count]; exact hlt)]
      · have hzero : current ≠ 0 := fun heq => hnull (heq ▸ mem_of_getElem? ht)
        have hxs : xs = xs.take t ++ current :: xs.drop (t + 1) := by
          rw [← hget, ← drop_eq_getElem_cons hlt, take_append_drop]
        have hfirst : current ∉ xs.take t := by
          have hn := hnodup
          rw [hxs, nodup_append] at hn
          intro hmem
          exact hn.2.2 current hmem current mem_cons_self rfl
        have hsearch : ThreadList.searchOrder xs current = xs.drop t ++ xs.take t := by
          rw [drop_eq_getElem_cons hlt, hget]
          calc
            ThreadList.searchOrder xs current
                = ThreadList.searchOrder (xs.take t ++ current :: xs.drop (t + 1)) current := by
                  rw [← hxs]
            _ = current :: xs.drop (t + 1) ++ xs.take t :=
                  ThreadList.searchOrder_of_mem hzero hfirst
        rw [hsearch, hslots.count]
        exact rel_append (forall₂_drop t hrange) (forall₂_take t hrange)
  rcases horder with ⟨ts, hS, hrel⟩
  rw [hschedule, hS]
  rcases hslots.firstReady hnodup hrel with ⟨hnone, hnone'⟩ | ⟨t, p, s', S', hsome, hsome', ht, hs'⟩
  · exact .inl ⟨by rw [hnone]; rfl, hnone'⟩
  · exact .inr ⟨t, p, s', S', by rw [hsome]; rfl, hsome', ht, hs'⟩

/-- The slots of `sampleThreads`, with the third one current. -/
def sampleSlots : Sched where
  tasks := fun t => match t with
    | 0 => { state := .blocked, event := 5 }
    | 1 => { state := .blocked, event := 6 }
    | _ => { state := .running, event := 0 }
  count := 3
  triggers := fun _ => 1
  current := fun _ => some 2

theorem schedule_refines_sample :
    ∃ t p s' S', sampleThreads.schedule 4 3 = some (some p, s') ∧
      sampleSlots.schedule (some 2) = some (t, S') ∧ [1, 2, 3][t]? = some p ∧
        s'.Slots [1, 2, 3] S' := by
  have hlist : Segment sampleThreads.entries ThreadEntry.next sampleThreads.head [1, 2, 3] 0 :=
    ⟨rfl, _, rfl, rfl, _, rfl, rfl, _, rfl, rfl⟩
  have hslots : sampleThreads.Slots [1, 2, 3] sampleSlots := by
    refine ⟨rfl, ?_, rfl⟩
    rintro (_ | _ | _ | i) p hp <;> cases hp <;> exact ⟨_, rfl, rfl⟩
  rcases schedule_refines hlist (by decide) rfl (by decide : [1, 2, 3].length < 4) hslots
    (Or.inr ⟨2, rfl, rfl⟩) with ⟨_, hnone⟩ | hsome
  · cases hnone
  · exact hsome

end SigmaOS.Proc.Process
