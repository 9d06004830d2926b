import SigmaOS.Lib.LockOrder
import SigmaOS.Proc.LockOwnership

/-!
# Proc.LockOrder — the scheduler's lock and the locks of the threads

`schedule`, `timer_handler` and `create_blocked_thread` take the locks of threads while they hold
`scheduler_mutex`, which so is the gate to holding two locks.  `kill` and `fork` go the other way:
they hold the lock of a thread when they take `scheduler_mutex`.

System calls and the timer interrupt run with interrupts off, and a kernel thread keeps them off
with `irq_lock`, so a CPU is through with one operation before it begins the next.
-/

namespace SigmaOS.Proc.Locks

open Lib LockAction Option
open Code

/-! ## Operations on threads -/

/-- The body of the calls that look at the list of threads. -/
def underScheduler (cpu : Cpu) (c : Code) : Code :=
  guarded (.irq cpu) (guarded .scheduler c)

/-- The body of the calls that look at one thread. -/
def underThread (cpu : Cpu) (tid : Tid) : Code :=
  guarded (.irq cpu) (guarded (.thread tid) skip)

def threadForTid (cpu : Cpu) : Code :=
  underScheduler cpu skip

def setState (cpu : Cpu) (tid : Tid) : Code :=
  underThread cpu tid

def wake (cpu : Cpu) (tid : Tid) : Code :=
  underThread cpu tid

def wakeThread (cpu : Cpu) (tid : Tid) : Code :=
  (threadForTid cpu).andThen (wake cpu tid)

def createThreadInt (cpu : Cpu) (tid : Tid) : Code :=
  underThread cpu tid

def createBlockedThread (cpu : Cpu) (tid : Tid) : Code :=
  underScheduler cpu (createThreadInt cpu tid)

def fork (cpu : Cpu) (parent : Option Tid) (child : Tid) : Code :=
  guarded (.irq cpu)
    ((getCurrentThread cpu).andThen
      (match parent with
      | none => skip
      | some parent =>
        all
          -- the child gets its entry, under the scheduler's lock, with the parent's lock held
          [ lock (.thread parent), createBlockedThread cpu child, lock (.thread child),
            unlock (.thread parent), unlock (.thread child), wake cpu child ]))

/-! ## The system -/

inductive ThreadOp
  | timer (tick : Tick)
  | block (tick : Tick)
  | lookup
  | wake (tid : Tid)
  | setState (tid : Tid)
  | createBlockedThread (tid : Tid)
  | fork (child : Tid)
  | kill

def ThreadOp.code (cpu : Cpu) (current : Option Tid) : ThreadOp → Option Code
  | .timer tick => some (timerHandler cpu tick current)
  -- `block` and `kill` are calls of the current thread
  | .block tick => current.map fun tid => Locks.block cpu tid tick
  | .lookup => some (threadForTid cpu)
  | .wake tid => some (wakeThread cpu tid)
  | .setState tid => some (Locks.setState cpu tid)
  | .createBlockedThread tid => some (Locks.createBlockedThread cpu tid)
  | .fork child => some (Locks.fork cpu current child)
  | .kill => current.map fun tid => Locks.kill cpu tid

def ThreadOp.current (current : Option Tid) : ThreadOp → Option Tid
  | .timer tick => tick.current current
  | .block tick => tick.current current
  -- the CPU idles in `kill` without a thread
  | .kill => none
  | _ => current

inductive ThreadEvent
  | start (cpu : Cpu) (op : ThreadOp)
  | act (cpu : Cpu)

/-- A CPU begins an operation, or performs the next lock action of the one it is in. -/
def Kernel.threadStep (k : Kernel) : ThreadEvent → Option Kernel
  | .start cpu op =>
    match op.code cpu (k.current cpu) with
    | none => none
    | some code =>
      (k.locks.begin cpu code.actions).map fun locks =>
        ⟨locks, Function.update k.current cpu (op.current (k.current cpu))⟩
  | .act cpu => (k.locks.act Lock.owner cpu).map fun locks => { k with locks := locks }

namespace Code

/-- The code waits for a second lock only with the scheduler's lock in hand, and leaves what was
held before. -/
def Passes (h : Multiset Lock) (c : Code) : Prop :=
  Gated Lock.owner .scheduler h c.actions ∧ c.run h = some h

/-- The CPU may wait for any lock: it has the scheduler's lock, or none but interrupt locks. -/
def MayWait (h : Multiset Lock) : Prop :=
  (∃ k ∈ h, Lock.owner k = none) → .scheduler ∈ h

variable {h : Multiset Lock} {c d : Code} {l : Lock} {cpu : Cpu}

lemma mayWait_zero : MayWait 0 := by
  rintro ⟨k, hk, _⟩
  exact absurd hk (Multiset.notMem_zero k)

lemma mayWait_scheduler : MayWait (.scheduler ::ₘ h) :=
  fun _ => Multiset.mem_cons_self _ h

lemma MayWait.irq (hh : MayWait h) : MayWait (.irq cpu ::ₘ h) := by
  rintro ⟨k, hk, hspin⟩
  rcases Multiset.mem_cons.1 hk with rfl | hold
  -- an interrupt lock has an owner
  · cases hspin
  · exact Multiset.mem_cons_of_mem (hh ⟨k, hold, hspin⟩)

lemma gated_andThen (hc : Gated Lock.owner .scheduler h c.actions)
    (hd : Gated Lock.owner .scheduler (leftover h c.actions) d.actions) :
    Gated Lock.owner .scheduler h (c.andThen d).actions := by
  -- code that does not return has nothing behind it
  unfold andThen
  split
  · exact (gated_append c.actions d.actions h).2 ⟨hc, hd⟩
  · exact hc

lemma Passes.skip : Passes h skip :=
  ⟨trivial, rfl⟩

lemma Passes.gated_andThen (hc : Passes h c) (hd : Gated Lock.owner .scheduler h d.actions) :
    Gated Lock.owner .scheduler h (c.andThen d).actions := by
  apply Code.gated_andThen hc.1
  rw [leftover_of_holds c.actions h h hc.2]
  exact hd

lemma Passes.andThen (hc : Passes h c) (hd : Passes h d) : Passes h (c.andThen d) := by
  refine ⟨hc.gated_andThen hd.1, ?_⟩
  rw [run_andThen, hc.2, bind_some, hd.2, ite_self]

lemma Passes.guarded (hh : MayWait h) (hc : Passes (l ::ₘ h) c) (hret : c.returns = true) :
    Passes h (guarded l c) := by
  refine ⟨?_, ?_⟩
  · have hbody : Gated Lock.owner .scheduler (l ::ₘ h) (c.andThen (unlock l)).actions :=
      hc.gated_andThen trivial
    exact Code.gated_andThen ⟨fun hspin _ => hh hspin, trivial⟩ hbody
  -- the guard releases the lock that it took
  · rw [Code.guarded, run_andThen, run_lock, bind_some, if_pos (returns_lock l), run_andThen,
      hc.2, bind_some, if_pos hret, run_unlock, if_pos (Multiset.mem_cons_self l h),
      Multiset.erase_cons_head]

lemma Passes.orderly (hc : Passes 0 c) : Orderly Lock.owner .scheduler 0 c.actions :=
  ⟨hc.2, hc.1⟩

end Code

section Passes

variable {h : Multiset Lock} {cpu : Cpu} {c : Code}

lemma underScheduler_passes (hh : MayWait h) (hc : Passes (.scheduler ::ₘ .irq cpu ::ₘ h) c)
    (hret : c.returns = true) : Passes h (underScheduler cpu c) :=
  (hc.guarded hh.irq hret).guarded hh ((returns_guarded .scheduler c).trans hret)

lemma underThread_passes (hh : MayWait h) (tid : Tid) : Passes h (underThread cpu tid) :=
  (Passes.skip.guarded hh.irq rfl).guarded hh rfl

lemma threadForTid_passes (hh : MayWait h) : Passes h (threadForTid cpu) :=
  underScheduler_passes hh Passes.skip rfl

lemma createBlockedThread_passes (hh : MayWait h) (tid : Tid) :
    Passes h (createBlockedThread cpu tid) :=
  underScheduler_passes hh (underThread_passes mayWait_scheduler tid) rfl

lemma checkThreads_passes (checked : List Tid) :
    Passes (.scheduler ::ₘ h) (checkThreads checked) := by
  induction checked with
  | nil => exact Passes.skip
  | cons tid checked ih =>
    have hhead : Passes (.scheduler ::ₘ h) (guarded (.thread tid) skip) :=
      Passes.skip.guarded mayWait_scheduler rfl
    exact hhead.andThen ih

lemma schedule_passes (checked : List Tid) :
    Passes (.scheduler ::ₘ h) (schedule cpu checked) := by
  have hlength : Passes (.scheduler ::ₘ h) (queueLength cpu) :=
    (Passes.skip.guarded mayWait_scheduler.irq rfl).guarded mayWait_scheduler rfl
  exact hlength.andThen (checkThreads_passes checked)

lemma idleCpu_gated (current : Option Tid) :
    Gated Lock.owner .scheduler (.scheduler ::ₘ h) (idleCpu current).actions := by
  cases current with
  | none => exact trivial
  | some tid => exact ⟨fun _ _ => Multiset.mem_cons_self _ h, trivial⟩

lemma switchTo_gated (new : Tid) (old : Option Tid) :
    Gated Lock.owner .scheduler (.scheduler ::ₘ h) (switchTo new old).actions := by
  cases old with
  | none => exact ⟨fun _ _ => Multiset.mem_cons_self _ h, trivial⟩
  | some tid =>
    -- the two locks are one if the thread goes on
    by_cases heq : tid = new <;>
      simp [switchTo, guarded, all, andThen, Code.lock, unlock, skip, heq, Gated]

/-- The timer handler passes from locks one may wait under. -/
lemma timerHandler_passes (hh : MayWait h) (tick : Tick) (old : Option Tid) :
    Passes h (timerHandler cpu tick old) := by
  refine ⟨?_, timerHandler_run cpu tick old h⟩
  have hlock : Gated Lock.owner .scheduler h (Code.lock .scheduler).actions :=
    ⟨fun hspin _ => hh hspin, trivial⟩
  -- all that follows begins with the scheduler's lock in hand
  apply gated_andThen hlock
  cases tick with
  | unmanaged => exact trivial
  | managed checked picked =>
    apply (schedule_passes checked).gated_andThen
    cases picked with
    | none => exact idleCpu_gated old
    | some new => exact switchTo_gated new old

lemma block_passes (tid : Tid) (tick : Tick) : Passes 0 (block cpu tid tick) := by
  have hself : Passes 0 (underThread cpu tid) := underThread_passes mayWait_zero tid
  exact hself.andThen ((timerHandler_passes mayWait_zero tick (some tid)).andThen Passes.skip)

end Passes

lemma fork_run (cpu : Cpu) (parent : Option Tid) (child : Tid) :
    (fork cpu parent child).run 0 = some 0 := by
  cases parent with
  | none => exact run_guarded 0 (getCurrentThread_run cpu) rfl
  | some parent =>
    have hcreate : ∀ h, (createBlockedThread cpu child).run h = some h := fun h =>
      run_guarded h (fun k => run_guarded k (mapAnonymous_run cpu child) rfl) rfl
    have hwake : ∀ h, (wake cpu child).run h = some h := mapAnonymous_run cpu child
    have hret : (createBlockedThread cpu child).returns = true := rfl
    have hret' : (wake cpu child).returns = true := rfl
    -- `create_blocked_thread` may have picked the entry of the parent itself
    by_cases heq : parent = child
    · simp [fork, guarded, all, run_andThen, hcreate, hwake, hret, hret', heq]
    · have hne : child ≠ parent := fun hsame => heq hsame.symm
      simp [fork, guarded, all, run_andThen, hcreate, hwake, hret, hret', hne,
        Multiset.erase_cons_tail]

lemma kill_leftover (cpu : Cpu) (tid : Tid) : leftover 0 (kill cpu tid).actions = 0 := by
  simp [kill, getCurrentThread, idleCpu, guarded, all, andThen, Code.lock, unlock, skip, never,
    leftover, Multiset.erase_cons_tail]

section Uses

variable (cpu : Cpu)

lemma underScheduler_uses {c : Code} (hc : Uses cpu c) : Uses cpu (underScheduler cpu c) :=
  Uses.guarded (mayUse_irq cpu) (Uses.guarded (mayUse_scheduler cpu) hc)

lemma underThread_uses (tid : Tid) : Uses cpu (underThread cpu tid) :=
  Uses.guarded (mayUse_irq cpu) (checkThread_uses cpu tid)

lemma fork_uses (parent : Option Tid) (child : Tid) : Uses cpu (fork cpu parent child) := by
  refine Uses.guarded (mayUse_irq cpu) ((getCurrentThread_uses cpu).andThen ?_)
  cases parent with
  | none => exact Uses.skip
  | some parent =>
    refine (Uses.lock (mayUse_thread cpu parent)).andThen ?_
    refine (underScheduler_uses cpu (underThread_uses cpu child)).andThen ?_
    refine (Uses.lock (mayUse_thread cpu child)).andThen ?_
    refine (Uses.unlock (mayUse_thread cpu parent)).andThen ?_
    refine (Uses.unlock (mayUse_thread cpu child)).andThen ?_
    exact (underThread_uses cpu child).andThen Uses.skip

end Uses

/-! ## Runs -/

/-- The operation takes the scheduler's lock before the lock of a thread, if it holds both. -/
def ThreadOp.Ordered : ThreadOp → Prop
  | .fork _ => False
  | .kill => False
  | _ => True

structure ThreadOp.Acts (op : ThreadOp) (cpu : Cpu) (c : Code) : Prop where
  uses : Uses cpu c
  settles : leftover 0 c.actions = 0
  orderly : op.Ordered → Orderly Lock.owner .scheduler 0 c.actions

variable {op : ThreadOp} {cpu : Cpu} {c : Code}

lemma ThreadOp.Acts.of_passes (huses : Uses cpu c) (hc : Passes 0 c) : op.Acts cpu c :=
  ⟨huses, leftover_of_holds c.actions 0 0 hc.2, fun _ => hc.orderly⟩

/-- What every operation does with locks. -/
lemma ThreadOp.code_acts {current : Option Tid} (h : op.code cpu current = some c) :
    op.Acts cpu c := by
  cases op with
  | timer tick =>
    cases h
    exact .of_passes (timerHandler_uses cpu tick current)
      (timerHandler_passes mayWait_zero tick current)
  | block tick =>
    rcases map_eq_some_iff.1 h with ⟨tid, _, rfl⟩
    exact .of_passes (block_uses cpu tid tick) (block_passes tid tick)
  | lookup =>
    cases h
    exact .of_passes (underScheduler_uses cpu Uses.skip) (threadForTid_passes mayWait_zero)
  | wake tid =>
    cases h
    exact .of_passes
      ((underScheduler_uses cpu Uses.skip).andThen (underThread_uses cpu tid))
      ((threadForTid_passes mayWait_zero).andThen (underThread_passes mayWait_zero tid))
  | setState tid =>
    cases h
    exact .of_passes (underThread_uses cpu tid) (underThread_passes mayWait_zero tid)
  | createBlockedThread tid =>
    cases h
    exact .of_passes (underScheduler_uses cpu (underThread_uses cpu tid))
      (createBlockedThread_passes mayWait_zero tid)
  | fork child =>
    cases h
    exact ⟨fork_uses cpu current child,
      leftover_of_holds _ 0 0 (fork_run cpu current child), fun hnot => absurd hnot id⟩
  | kill =>
    rcases map_eq_some_iff.1 h with ⟨tid, _, rfl⟩
    exact ⟨kill_uses cpu tid, kill_leftover cpu tid, fun hnot => absurd hnot id⟩

/-- An operation is begun only while what the other CPUs have left to do is in order, and `fork` and
`kill` only while the others are between two operations. -/
def ThreadEvent.InTurn (k : Kernel) : ThreadEvent → Prop
  | .start cpu op =>
    (∀ other, other ≠ cpu →
      Orderly Lock.owner .scheduler (k.locks.held other) (k.locks.code other)) ∧
    (op.Ordered ∨ ∀ other, other ≠ cpu → k.locks.code other = [])
  | .act _ => True

/-- A step in turn keeps the locks peaceful. -/
lemma threadStep_peaceful {k k' : Kernel} {e : ThreadEvent}
    (h : LockState.Peaceful Lock.owner .scheduler k.locks) (hok : e.InTurn k)
    (hs : k.threadStep e = some k') : LockState.Peaceful Lock.owner .scheduler k'.locks := by
  cases e with
  | start cpu op =>
    simp only [Kernel.threadStep] at hs
    split at hs
    · cases hs
    · next c hcode =>
      rcases map_eq_some_iff.1 hs with ⟨locks, hbegin, rfl⟩
      -- which operation it is matters only for its list of actions
      have hacts := ThreadOp.code_acts hcode
      exact h.begin hok.1 (hok.2.imp_left hacts.orderly) hacts.uses hacts.settles hbegin
  | act cpu =>
    rcases map_eq_some_iff.1 hs with ⟨locks, hact, rfl⟩
    exact h.act hact

/-- All CPUs but this one are between two operations. -/
def Kernel.OthersIdle (k : Kernel) (cpu : Cpu) : Prop :=
  ∀ other, other ≠ cpu → k.locks.code other = [] ∧ k.locks.held other = 0

def ThreadEvent.agent : ThreadEvent → Cpu
  | .start cpu _ => cpu
  | .act cpu => cpu

/-- A step of one CPU changes nothing of the others. -/
lemma threadStep_other {k k' : Kernel} {e : ThreadEvent} {other : Cpu}
    (hs : k.threadStep e = some k') (hne : other ≠ e.agent) :
    k'.locks.code other = k.locks.code other ∧ k'.locks.held other = k.locks.held other := by
  cases e with
  | start cpu op =>
    simp only [Kernel.threadStep] at hs
    split at hs
    · cases hs
    · rcases map_eq_some_iff.1 hs with ⟨locks, hbegin, rfl⟩
      rcases LockState.begin_some hbegin with ⟨_, rfl⟩
      exact ⟨Function.update_of_ne hne .., rfl⟩
  | act cpu =>
    rcases map_eq_some_iff.1 hs with ⟨locks, hact, rfl⟩
    rcases LockState.act_cases hact with ⟨l, rest, _, _, rfl⟩ | ⟨l, rest, _, rfl⟩ <;>
      exact ⟨Function.update_of_ne hne .., Function.update_of_ne hne ..⟩

/-- While the other CPUs are between two operations, whatever one CPU begins is in its turn. -/
lemma run_of_othersIdle {cpu : Cpu} {es : List ThreadEvent} {k k' : Kernel}
    (hidle : k.OthersIdle cpu) (hcpu : ∀ e ∈ es, e.agent = cpu)
    (h : exec Kernel.threadStep k es = some k') :
    Run Kernel.threadStep ThreadEvent.InTurn k k' ∧ k'.OthersIdle cpu := by
  induction es generalizing k with
  | nil =>
    cases h
    exact ⟨Run.refl _, hidle⟩
  | cons e es ih =>
    rcases exec_cons_some.1 h with ⟨k₁, hs, hrest⟩
    have hself : e.agent = cpu := hcpu e List.mem_cons_self
    have hturn : e.InTurn k := by
      cases e with
      | act => trivial
      | start c op =>
        refine ⟨fun other hne => ?_, .inr fun other hne => (hidle other (hself ▸ hne)).1⟩
        rw [(hidle other (hself ▸ hne)).1, (hidle other (hself ▸ hne)).2]
        exact ⟨rfl, trivial⟩
    have hidle₁ : k₁.OthersIdle cpu := by
      intro other hne
      rcases threadStep_other hs (hself ▸ hne) with ⟨hcode, hheld⟩
      rw [hcode, hheld]
      exact hidle other hne
    rcases ih hidle₁ (fun e he => hcpu e (List.mem_cons_of_mem _ he)) hrest with ⟨hrun, hidle'⟩
    exact ⟨(Run.single hturn hs).trans hrun, hidle'⟩

/-- On any number of CPUs, with any number of threads and in any interleaving, no CPUs wait for each
other, if every operation is begun in its turn. -/
theorem no_lock_cycle (current : Cpu → Option Tid) (k : Kernel)
    (hrun : Run Kernel.threadStep ThreadEvent.InTurn (Kernel.boot current) k) (C : Cpu → Prop) :
    ¬ k.locks.Deadlocked C := by
  have hpeace : LockState.Peaceful Lock.owner .scheduler k.locks :=
    hrun.invariant (I := fun k => LockState.Peaceful Lock.owner .scheduler k.locks)
      (Or.inl LockState.Tidy.start) fun _ _ _ h hok hs => threadStep_peaceful h hok hs
  exact hpeace.not_deadlocked rfl C

/-- CPU 0 is through with `kill`, and looks up a thread. -/
def killedRun : List ThreadEvent :=
  .start 0 .kill :: List.replicate 11 (.act 0) ++ [.start 0 .lookup, .act 0, .act 0]

/-- CPU 0 holds the scheduler's lock while CPU 1 holds that of a thread. -/
theorem no_lock_cycle_kill :
    ∃ k, exec Kernel.threadStep (Kernel.boot some)
        (killedRun ++ [.start 1 (.setState 5), .act 1, .act 1]) = some k ∧
      .scheduler ∈ k.locks.held 0 ∧ .thread 5 ∈ k.locks.held 1 ∧ ∀ C, ¬ k.locks.Deadlocked C := by
  have hfirst : (exec Kernel.threadStep (Kernel.boot some) killedRun).map (fun k =>
      (k.locks.code 0, k.locks.held 0)) =
        some ([release .scheduler, release (.irq 0)], {.scheduler, .irq 0}) := by
    decide
  rcases map_eq_some_iff.1 hfirst with ⟨k₁, hk₁, heq⟩
  have hcpu : ∀ e ∈ killedRun, e.agent = 0 := by decide
  rcases run_of_othersIdle (fun _ _ => ⟨rfl, rfl⟩) hcpu hk₁ with ⟨hrun₁, hidle⟩
  -- what CPU 0 has left to do is in order, so CPU 1 may begin
  have hturn : ThreadEvent.InTurn k₁ (.start 1 (.setState 5)) := by
    refine ⟨fun other _ => ?_, .inl trivial⟩
    by_cases hzero : other = 0
    · rw [hzero, show k₁.locks.code 0 = _ from congrArg Prod.fst heq,
        show k₁.locks.held 0 = _ from congrArg Prod.snd heq]
      exact ⟨by decide, trivial⟩
    · rw [(hidle other hzero).1, (hidle other hzero).2]
      exact ⟨rfl, trivial⟩
  have hstate : (exec Kernel.threadStep (Kernel.boot some)
      (killedRun ++ [.start 1 (.setState 5), .act 1, .act 1])).map (fun k =>
        (decide (.scheduler ∈ k.locks.held 0), decide (.thread 5 ∈ k.locks.held 1))) =
          some (true, true) := by
    decide
  rcases map_eq_some_iff.1 hstate with ⟨k, hk, hheld⟩
  refine ⟨k, hk, of_decide_eq_true (congrArg Prod.fst hheld),
    of_decide_eq_true (congrArg Prod.snd hheld), no_lock_cycle some k (hrun₁.trans ?_)⟩
  rw [exec_append, hk₁, bind_some] at hk
  rcases exec_cons_some.1 hk with ⟨k₂, hs, hrest⟩
  refine (Run.single hturn hs).trans (exec_run hrest fun e he _ => ?_)
  rcases List.mem_pair.1 he with rfl | rfl <;> trivial

/-- CPU 0 switches from the kernel's thread to thread 1, which is killed: it has its own lock and goes
for the scheduler's.  A tick on CPU 1 has the scheduler's lock and comes to thread 1. -/
def crossedRun : List ThreadEvent :=
  .start 0 (.timer (.managed [0, 1] (some 1))) :: List.replicate 14 (.act 0) ++
    .start 0 .kill :: List.replicate 6 (.act 0) ++
    .start 1 (.timer (.managed [0, 1] none)) :: List.replicate 7 (.act 1)

/-- Each of two CPUs waits for the lock that the other one has. -/
theorem kill_lock_cycle :
    ¬ ∀ (current : Cpu → Option Tid) (k : Kernel),
      Run Kernel.threadStep (fun _ _ => True) (Kernel.boot current) k →
        ∀ C, ¬ k.locks.Deadlocked C := by
  intro hclaim
  have hstate : (exec Kernel.threadStep (Kernel.boot fun _ => some 0) crossedRun).map (fun k =>
    ((k.locks.code 0).head?, (k.locks.code 1).head?,
      decide (.thread 1 ∈ k.locks.held 0), decide (.scheduler ∈ k.locks.held 1))) =
        some (some (acquire .scheduler), some (acquire (.thread 1)), true, true) := by
    decide
  rcases Option.map_eq_some_iff.1 hstate with ⟨k, hk, heq⟩
  have hcode₀ : (k.locks.code 0).head? = some (acquire .scheduler) := congrArg Prod.fst heq
  have hcode₁ : (k.locks.code 1).head? = some (acquire (.thread 1)) :=
    congrArg (fun x => x.2.1) heq
  have hheld₀ : .thread 1 ∈ k.locks.held 0 := of_decide_eq_true (congrArg (fun x => x.2.2.1) heq)
  have hheld₁ : .scheduler ∈ k.locks.held 1 := of_decide_eq_true (congrArg (fun x => x.2.2.2) heq)
  -- each of the two waits for what the other one holds
  apply hclaim _ k (exec_run hk fun _ _ _ => trivial) fun cpu => cpu = 0 ∨ cpu = 1
  refine ⟨⟨0, Or.inl rfl⟩, ?_⟩
  rintro cpu (rfl | rfl)
  · rcases List.head?_eq_some_iff.1 hcode₀ with ⟨rest, hcode⟩
    exact ⟨.scheduler, rest, hcode, 1, Or.inr rfl, by decide, hheld₁⟩
  · rcases List.head?_eq_some_iff.1 hcode₁ with ⟨rest, hcode⟩
    exact ⟨.thread 1, rest, hcode, 0, Or.inl rfl, by decide, hheld₀⟩

end SigmaOS.Proc.Locks
