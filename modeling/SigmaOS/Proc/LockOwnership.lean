import SigmaOS.Lib.Locks
import SigmaOS.Lib.Run

/-!
# Proc.LockOwnership — who releases the locks of the kernel

The scheduler, the device commands and the region calls as the lists of lock actions they perform
on one CPU.  System calls and the timer interrupt run with interrupts off, so a CPU is through with
one of them before it begins the next; CPUs interleave between any two actions.  What a call looks
up (whether a CPU is managed, which threads `schedule` checks and which it picks, what
`alloc_n_blocks` answers) is data of the call.

`idle_cpu` does not return, so nothing that its callers have left to do is done, the destructors of
their lock guards included.
-/

namespace SigmaOS.Proc.Locks

open Lib LockAction Option

abbrev Cpu := Nat

abbrev Tid := Nat

inductive Lock
  | scheduler
  | schedulingQueue
  | devctl
  | thread (tid : Tid)
  | irq (cpu : Cpu)
  deriving DecidableEq

/-- The mutexes are spin locks; an `irq_lock` is a counter of its CPU. -/
def Lock.owner : Lock → Option Cpu
  | .irq cpu => some cpu
  | _ => none

/-! ## Code -/

/-- The lock actions of a piece of code, and whether it returns. -/
structure Code where
  actions : List (LockAction Lock)
  returns : Bool
  deriving DecidableEq

namespace Code

def skip : Code := ⟨[], true⟩

def never : Code := ⟨[], false⟩

def lock (l : Lock) : Code := ⟨[acquire l], true⟩

def unlock (l : Lock) : Code := ⟨[release l], true⟩

/-- What follows code that does not return is not reached. -/
def andThen (c d : Code) : Code :=
  if c.returns then ⟨c.actions ++ d.actions, d.returns⟩ else c

/-- A scope with a `std::lock_guard`. -/
def guarded (l : Lock) (c : Code) : Code :=
  (lock l).andThen (c.andThen (unlock l))

def all : List Code → Code
  | [] => skip
  | c :: cs => c.andThen (all cs)

end Code

open Code

/-! ## The scheduler -/

/-- What a run of `timer_handler` finds: a CPU that is not managed, or the threads that
`schedule` checks with the one that it picks. -/
inductive Tick
  | unmanaged
  | managed (checked : List Tid) (picked : Option Tid)

/-- `timer_handler` returns unless it ends in `idle_cpu`. -/
def Tick.returns : Tick → Bool
  | .managed _ none => false
  | _ => true

/-- `cpu->current_thread` after the tick. -/
def Tick.current (tick : Tick) (old : Option Tid) : Option Tid :=
  match tick with
  | .unmanaged => old
  | .managed _ picked => picked

/-- `scheduling_queue.length()`. -/
def queueLength (cpu : Cpu) : Code :=
  guarded (.irq cpu) (guarded .schedulingQueue skip)

/-- `check_thread` holds the lock of the thread it looks at. -/
def checkThreads (checked : List Tid) : Code :=
  all (checked.map fun tid => guarded (.thread tid) skip)

/-- `schedule`; nothing is ever put into the queue, so it goes on to the round robin. -/
def schedule (cpu : Cpu) (checked : List Tid) : Code :=
  (queueLength cpu).andThen (checkThreads checked)

def idleCpu (current : Option Tid) : Code :=
  all
    [ match current with
      | none => skip
      | some tid => guarded (.thread tid) skip,
      unlock .scheduler,
      never ]

/-- `timer_handler` once it has a thread to switch to. -/
def switchTo (new : Tid) (old : Option Tid) : Code :=
  guarded (.thread new)
    (all
      [ match old with
        | none => skip
        | some tid =>
          if tid = new then skip else (lock (.thread tid)).andThen (unlock (.thread tid)),
        unlock .scheduler ])

def timerHandler (cpu : Cpu) (tick : Tick) (old : Option Tid) : Code :=
  (lock .scheduler).andThen
    (match tick with
    | .unmanaged => unlock .scheduler
    | .managed checked picked =>
      (schedule cpu checked).andThen
        (match picked with
        | none => idleCpu old
        | some new => switchTo new old))

def getCurrentThread (cpu : Cpu) : Code :=
  guarded (.irq cpu) (guarded .scheduler skip)

/-- `kill` of thread `tid`, which `get_current_thread` answers; the CPU has no thread any more when
it comes to `idle_cpu`. -/
def kill (cpu : Cpu) (tid : Tid) : Code :=
  all
    [ getCurrentThread cpu,
      lock (.thread tid), lock (.irq cpu), lock .scheduler,
      unlock (.thread tid), unlock .scheduler, unlock (.irq cpu),
      -- releases the scheduler's lock for a caller that holds it, which this one no longer does
      idleCpu none ]

def block (cpu : Cpu) (tid : Tid) (tick : Tick) : Code :=
  all
    [ lock (.irq cpu), lock (.thread tid), unlock (.thread tid), unlock (.irq cpu),
      timerHandler cpu tick (some tid) ]

inductive DevctlCmd
  | nop
  | claim (unclaimed : Bool)
  | findPci
  | findPciClass
  | getResourceRegion
  | enableIrq
  | waitOnIrq (tick : Tick)
  | readPci
  | writePci
  | unknown

def devctl (cpu : Cpu) (tid : Tid) (cmd : DevctlCmd) : Code :=
  guarded .devctl
    (match cmd with
    | .claim true => getCurrentThread cpu
    | .enableIrq => getCurrentThread cpu
    -- unlocked by hand, in the belief that `block` does not return to the guard
    | .waitOnIrq tick => all [getCurrentThread cpu, unlock .devctl, block cpu tid tick]
    | _ => skip)

def mapAnonymous (cpu : Cpu) (tid : Tid) : Code :=
  guarded (.irq cpu) (guarded (.thread tid) skip)

/-- `thread::get_phys_region`, where `alloc_n_blocks` answered `physAddr`. -/
def getPhysRegion (cpu : Cpu) (tid : Tid) (physAddr : BitVec 64) : Code :=
  guarded (.irq cpu)
    ((lock (.thread tid)).andThen
      (if physAddr = 0#64 then
        -- unlocked by hand under the guard
        (unlock (.thread tid)).andThen (unlock (.irq cpu))
      else
        (unlock (.thread tid)).andThen (mapAnonymous cpu tid)))

/-! ## The system -/

inductive Op
  | timer (tick : Tick)
  | kill
  | devctl (cmd : DevctlCmd)
  | getPhysRegion (physAddr : BitVec 64)

def Op.code (cpu : Cpu) (current : Option Tid) : Op → Option Code
  | .timer tick => some (timerHandler cpu tick current)
  | .kill => current.map fun tid => Locks.kill cpu tid
  | .devctl cmd => current.map fun tid => Locks.devctl cpu tid cmd
  | .getPhysRegion physAddr => current.map fun tid => Locks.getPhysRegion cpu tid physAddr

/-- `cpu->current_thread` after an operation; only the CPU itself looks at it. -/
def Op.current (current : Option Tid) : Op → Option Tid
  | .timer tick => tick.current current
  | .kill => none
  | .devctl (.waitOnIrq tick) => tick.current current
  | _ => current

structure Kernel where
  locks : LockState Cpu Lock
  current : Cpu → Option Tid

def Kernel.boot (current : Cpu → Option Tid) : Kernel :=
  ⟨LockState.start, current⟩

inductive Event
  | start (cpu : Cpu) (op : Op)
  | act (cpu : Cpu)

def Kernel.step (k : Kernel) : Event → Option Kernel
  | .start cpu op =>
    match op.code cpu (k.current cpu) with
    | none => none
    | some code =>
      (k.locks.begin cpu code.actions).map fun locks =>
        ⟨locks, Function.update k.current cpu (op.current (k.current cpu))⟩
  | .act cpu => (k.locks.act Lock.owner cpu).map fun locks => { k with locks := locks }

namespace Code

/-- What the CPU holds after the code, or `none` when it releases a lock that it does not hold. -/
def run (h : Multiset Lock) (c : Code) : Option (Multiset Lock) :=
  holds h c.actions

variable {c d : Code} {l : Lock}

@[simp] lemma run_skip (h : Multiset Lock) : run h skip = some h := rfl

@[simp] lemma run_never (h : Multiset Lock) : run h never = some h := rfl

@[simp] lemma run_lock (h : Multiset Lock) (l : Lock) : run h (lock l) = some (l ::ₘ h) := rfl

@[simp] lemma run_unlock (h : Multiset Lock) (l : Lock) :
    run h (unlock l) = if l ∈ h then some (h.erase l) else none := rfl

@[simp] lemma returns_skip : skip.returns = true := rfl

@[simp] lemma returns_never : never.returns = false := rfl

@[simp] lemma returns_lock (l : Lock) : (lock l).returns = true := rfl

@[simp] lemma returns_unlock (l : Lock) : (unlock l).returns = true := rfl

@[simp] lemma returns_andThen (c d : Code) :
    (c.andThen d).returns = (c.returns && d.returns) := by
  unfold andThen
  cases hc : c.returns with
  | false => simp [hc]
  | true => simp

/-- The second part starts with what the first one leaves, if it is reached at all. -/
lemma run_andThen (h : Multiset Lock) (c d : Code) :
    run h (c.andThen d) = (run h c).bind fun h' => if c.returns then run h' d else some h' := by
  unfold andThen
  cases hc : c.returns with
  | false => simp
  | true => simpa [run] using holds_append c.actions d.actions h

@[simp] lemma returns_guarded (l : Lock) (c : Code) : (guarded l c).returns = c.returns := by
  simp [guarded]

lemma run_guarded (h : Multiset Lock) (hc : ∀ k, run k c = some k) (hret : c.returns = true) :
    run h (guarded l c) = some h := by
  simp [guarded, run_andThen, hc, hret]

@[simp] lemma run_pair (h : Multiset Lock) (l : Lock) :
    run h ((lock l).andThen (unlock l)) = some h := by
  simp [run_andThen]

end Code

@[simp] lemma checkThreads_returns (checked : List Tid) :
    (checkThreads checked).returns = true := by
  induction checked with
  | nil => rfl
  | cons tid checked ih => simpa [checkThreads, all] using ih

@[simp] lemma checkThreads_run (checked : List Tid) (h : Multiset Lock) :
    (checkThreads checked).run h = some h := by
  induction checked with
  | nil => rfl
  | cons tid checked ih =>
    have hhead : run h (guarded (.thread tid) skip) = some h := run_guarded h run_skip rfl
    simpa [checkThreads, all, run_andThen, hhead] using ih

lemma run_nested (h : Multiset Lock) (l l' : Lock) :
    run h (guarded l (guarded l' skip)) = some h :=
  run_guarded h (fun k => run_guarded k run_skip rfl) rfl

@[simp] lemma schedule_returns (cpu : Cpu) (checked : List Tid) :
    (schedule cpu checked).returns = true := by
  simp [schedule, queueLength]

@[simp] lemma schedule_run (cpu : Cpu) (checked : List Tid) (h : Multiset Lock) :
    (schedule cpu checked).run h = some h := by
  simp [schedule, queueLength, run_andThen, run_nested]

@[simp] lemma getCurrentThread_returns (cpu : Cpu) : (getCurrentThread cpu).returns = true := rfl

@[simp] lemma getCurrentThread_run (cpu : Cpu) (h : Multiset Lock) :
    (getCurrentThread cpu).run h = some h :=
  run_nested h _ _

@[simp] lemma mapAnonymous_run (cpu : Cpu) (tid : Tid) (h : Multiset Lock) :
    (mapAnonymous cpu tid).run h = some h :=
  run_nested h _ _

@[simp] lemma idleCpu_returns (current : Option Tid) : (idleCpu current).returns = false := by
  simp [idleCpu, all]

@[simp] lemma idleCpu_run (current : Option Tid) (h : Multiset Lock) :
    (idleCpu current).run h =
      if .scheduler ∈ h then some (h.erase .scheduler) else none := by
  cases current with
  | none => by_cases hin : Lock.scheduler ∈ h <;> simp [idleCpu, all, run_andThen, hin]
  | some tid =>
    have hhead : run h (guarded (.thread tid) skip) = some h := run_guarded h run_skip rfl
    by_cases hin : Lock.scheduler ∈ h <;> simp [idleCpu, all, run_andThen, hhead, hin]

@[simp] lemma switchTo_returns (new : Tid) (old : Option Tid) :
    (switchTo new old).returns = true := by
  cases old with
  | none => rfl
  | some tid => by_cases heq : tid = new <;> simp [switchTo, all, heq]

lemma switchTo_run (new : Tid) (old : Option Tid) (h : Multiset Lock) :
    (switchTo new old).run (.scheduler ::ₘ h) = some h := by
  cases old with
  | none => simp [switchTo, guarded, all, run_andThen, Multiset.erase_cons_tail]
  | some tid =>
    -- the old thread's lock is taken only if it is not the one that is held already
    by_cases heq : tid = new <;>
      simp [switchTo, guarded, all, run_andThen, heq, Multiset.erase_cons_tail]

@[simp] lemma timerHandler_returns (cpu : Cpu) (tick : Tick) (old : Option Tid) :
    (timerHandler cpu tick old).returns = tick.returns := by
  cases tick with
  | unmanaged => rfl
  | managed checked picked => cases picked <;> simp [timerHandler, Tick.returns]

@[simp] lemma timerHandler_run (cpu : Cpu) (tick : Tick) (old : Option Tid) (h : Multiset Lock) :
    (timerHandler cpu tick old).run h = some h := by
  cases tick with
  | unmanaged => simp [timerHandler]
  | managed checked picked =>
    cases picked with
    | none => simp [timerHandler, run_andThen]
    | some new => simp [timerHandler, run_andThen, switchTo_run]

@[simp] lemma block_returns (cpu : Cpu) (tid : Tid) (tick : Tick) :
    (block cpu tid tick).returns = tick.returns := by
  simp [block, all]

@[simp] lemma block_run (cpu : Cpu) (tid : Tid) (tick : Tick) (h : Multiset Lock) :
    (block cpu tid tick).run h = some h := by
  cases hret : tick.returns <;> simp [block, all, run_andThen, hret]

/-- The operation performs as many releases as it has acquisitions: it is no `kill`, no wait for an
interrupt that goes on to another thread, and no region call that gets no memory. -/
def Op.Paired : Op → Prop
  | .kill => False
  | .devctl (.waitOnIrq tick) => tick.returns = false
  | .getPhysRegion physAddr => physAddr ≠ 0#64
  | _ => True

lemma kill_run (cpu : Cpu) (tid : Tid) : (kill cpu tid).run 0 = none := by
  simp [kill, all, run_andThen, Multiset.erase_cons_tail]

lemma devctl_run (cpu : Cpu) (tid : Tid) (cmd : DevctlCmd) :
    (devctl cpu tid cmd).run 0 =
      match cmd with
      | .waitOnIrq tick => if tick.returns then none else some 0
      | _ => some 0 := by
  cases cmd with
  | waitOnIrq tick =>
    cases hret : tick.returns <;>
      simp [devctl, guarded, all, run_andThen, hret]
  | claim unclaimed =>
    cases unclaimed with
    | false => exact run_guarded 0 run_skip rfl
    | true => exact run_guarded 0 (getCurrentThread_run cpu) rfl
  | enableIrq => exact run_guarded 0 (getCurrentThread_run cpu) rfl
  | _ => exact run_guarded 0 run_skip rfl

lemma getPhysRegion_run (cpu : Cpu) (tid : Tid) (physAddr : BitVec 64) :
    (getPhysRegion cpu tid physAddr).run 0 = if physAddr = 0#64 then none else some 0 := by
  by_cases hnull : physAddr = 0#64
  · simp [getPhysRegion, guarded, run_andThen, hnull]
  · have hbody : (mapAnonymous cpu tid).returns = true := rfl
    simp [getPhysRegion, guarded, run_andThen, hnull, hbody]

/-- Exactly the paired operations release what they hold. -/
lemma Op.code_run {cpu : Cpu} {current : Option Tid} {op : Op} {c : Code}
    (h : op.code cpu current = some c) :
    (op.Paired → c.run 0 = some 0) ∧ (¬ op.Paired → c.run 0 = none) := by
  cases op with
  | timer tick =>
    cases h
    exact ⟨fun _ => timerHandler_run cpu tick current 0, fun hnot => absurd trivial hnot⟩
  | kill =>
    rcases map_eq_some_iff.1 h with ⟨tid, _, rfl⟩
    exact ⟨fun hpaired => absurd hpaired id, fun _ => kill_run cpu tid⟩
  | devctl cmd =>
    rcases map_eq_some_iff.1 h with ⟨tid, _, rfl⟩
    cases cmd with
    | waitOnIrq tick =>
      refine ⟨?_, ?_⟩
      · intro hpaired
        simpa [show tick.returns = false from hpaired] using
          devctl_run cpu tid (.waitOnIrq tick)
      · intro hnot
        have hret : tick.returns = true := by simpa [Op.Paired] using hnot
        simpa [hret] using devctl_run cpu tid (.waitOnIrq tick)
    | _ => exact ⟨fun _ => devctl_run cpu tid _, fun hnot => absurd trivial hnot⟩
  | getPhysRegion physAddr =>
    rcases map_eq_some_iff.1 h with ⟨tid, _, rfl⟩
    refine ⟨?_, ?_⟩
    · intro hpaired
      rw [getPhysRegion_run, if_neg hpaired]
    · intro hnot
      rw [getPhysRegion_run, if_pos (by_contra hnot)]

/-! ## Each CPU uses its own interrupt lock -/

/-- The code uses no `irq_lock` but that of the CPU. -/
def Code.Uses (cpu : Cpu) (c : Code) : Prop :=
  ∀ a ∈ c.actions, LockState.MayUse Lock.owner cpu a.lock

namespace Code.Uses

variable {cpu : Cpu} {c d : Code} {l : Lock}

lemma skip : Uses cpu skip :=
  nofun

lemma never : Uses cpu never :=
  nofun

lemma lock (h : LockState.MayUse Lock.owner cpu l) : Uses cpu (lock l) := by
  intro a ha
  rw [List.mem_singleton.1 ha]
  exact h

lemma unlock (h : LockState.MayUse Lock.owner cpu l) : Uses cpu (unlock l) := by
  intro a ha
  rw [List.mem_singleton.1 ha]
  exact h

lemma andThen (hc : Uses cpu c) (hd : Uses cpu d) : Uses cpu (c.andThen d) := by
  intro a ha
  unfold Code.andThen at ha
  split at ha
  · rcases List.mem_append.1 ha with hin | hin
    · exact hc a hin
    · exact hd a hin
  · exact hc a ha

lemma guarded (h : LockState.MayUse Lock.owner cpu l) (hc : Uses cpu c) :
    Uses cpu (guarded l c) :=
  (lock h).andThen (hc.andThen (unlock h))

lemma all {cs : List Code} (h : ∀ c ∈ cs, Uses cpu c) : Uses cpu (all cs) := by
  induction cs with
  | nil => exact skip
  | cons c cs ih =>
    exact (h c List.mem_cons_self).andThen (ih fun d hd => h d (List.mem_cons_of_mem c hd))

end Code.Uses

section Uses

variable (cpu : Cpu)

lemma mayUse_scheduler : LockState.MayUse Lock.owner cpu .scheduler := .inl rfl

lemma mayUse_schedulingQueue : LockState.MayUse Lock.owner cpu .schedulingQueue := .inl rfl

lemma mayUse_devctl : LockState.MayUse Lock.owner cpu .devctl := .inl rfl

lemma mayUse_thread (tid : Tid) : LockState.MayUse Lock.owner cpu (.thread tid) := .inl rfl

lemma mayUse_irq : LockState.MayUse Lock.owner cpu (.irq cpu) := .inr rfl

lemma checkThread_uses (tid : Tid) : Uses cpu (guarded (.thread tid) skip) :=
  Uses.guarded (mayUse_thread cpu tid) Uses.skip

lemma idleCpu_uses (current : Option Tid) : Uses cpu (idleCpu current) := by
  refine Uses.andThen ?_ ((Uses.unlock (mayUse_scheduler cpu)).andThen
    (Uses.never.andThen Uses.skip))
  cases current with
  | none => exact Uses.skip
  | some tid => exact checkThread_uses cpu tid

lemma switchTo_uses (new : Tid) (old : Option Tid) : Uses cpu (switchTo new old) := by
  refine Uses.guarded (mayUse_thread cpu new)
    (Uses.andThen ?_ ((Uses.unlock (mayUse_scheduler cpu)).andThen Uses.skip))
  cases old with
  | none => exact Uses.skip
  | some tid =>
    by_cases heq : tid = new
    · simpa [heq] using Uses.skip
    · simpa [heq] using
        (Uses.lock (mayUse_thread cpu tid)).andThen (Uses.unlock (mayUse_thread cpu tid))

lemma schedule_uses (checked : List Tid) : Uses cpu (schedule cpu checked) := by
  refine Uses.andThen (Uses.guarded (mayUse_irq cpu)
    (Uses.guarded (mayUse_schedulingQueue cpu) Uses.skip)) (Uses.all ?_)
  intro c hc
  rcases List.mem_map.1 hc with ⟨tid, _, rfl⟩
  exact checkThread_uses cpu tid

lemma timerHandler_uses (tick : Tick) (old : Option Tid) :
    Uses cpu (timerHandler cpu tick old) := by
  refine (Uses.lock (mayUse_scheduler cpu)).andThen ?_
  cases tick with
  | unmanaged => exact Uses.unlock (mayUse_scheduler cpu)
  | managed checked picked =>
    refine (schedule_uses cpu checked).andThen ?_
    cases picked with
    | none => exact idleCpu_uses cpu old
    | some new => exact switchTo_uses cpu new old

lemma getCurrentThread_uses : Uses cpu (getCurrentThread cpu) :=
  Uses.guarded (mayUse_irq cpu) (Uses.guarded (mayUse_scheduler cpu) Uses.skip)

lemma kill_uses (tid : Tid) : Uses cpu (kill cpu tid) := by
  refine (getCurrentThread_uses cpu).andThen ?_
  refine (Uses.lock (mayUse_thread cpu tid)).andThen ?_
  refine (Uses.lock (mayUse_irq cpu)).andThen ?_
  refine (Uses.lock (mayUse_scheduler cpu)).andThen ?_
  refine (Uses.unlock (mayUse_thread cpu tid)).andThen ?_
  refine (Uses.unlock (mayUse_scheduler cpu)).andThen ?_
  refine (Uses.unlock (mayUse_irq cpu)).andThen ?_
  exact (idleCpu_uses cpu none).andThen Uses.skip

lemma block_uses (tid : Tid) (tick : Tick) : Uses cpu (block cpu tid tick) := by
  refine (Uses.lock (mayUse_irq cpu)).andThen ?_
  refine (Uses.lock (mayUse_thread cpu tid)).andThen ?_
  refine (Uses.unlock (mayUse_thread cpu tid)).andThen ?_
  refine (Uses.unlock (mayUse_irq cpu)).andThen ?_
  exact (timerHandler_uses cpu tick (some tid)).andThen Uses.skip

lemma devctl_uses (tid : Tid) (cmd : DevctlCmd) : Uses cpu (devctl cpu tid cmd) := by
  refine Uses.guarded (mayUse_devctl cpu) ?_
  cases cmd with
  | claim unclaimed =>
    cases unclaimed with
    | false => exact Uses.skip
    | true => exact getCurrentThread_uses cpu
  | enableIrq => exact getCurrentThread_uses cpu
  | waitOnIrq tick =>
    exact (getCurrentThread_uses cpu).andThen ((Uses.unlock (mayUse_devctl cpu)).andThen
      ((block_uses cpu tid tick).andThen Uses.skip))
  | _ => exact Uses.skip

lemma getPhysRegion_uses (tid : Tid) (physAddr : BitVec 64) :
    Uses cpu (getPhysRegion cpu tid physAddr) := by
  refine Uses.guarded (mayUse_irq cpu) ((Uses.lock (mayUse_thread cpu tid)).andThen ?_)
  split
  · exact (Uses.unlock (mayUse_thread cpu tid)).andThen (Uses.unlock (mayUse_irq cpu))
  · exact (Uses.unlock (mayUse_thread cpu tid)).andThen
      (Uses.guarded (mayUse_irq cpu) (checkThread_uses cpu tid))

/-- An operation uses only the locks its CPU may. -/
lemma Op.code_uses {current : Option Tid} {op : Op} {c : Code}
    (h : op.code cpu current = some c) : Uses cpu c := by
  cases op with
  | timer tick =>
    cases h
    exact timerHandler_uses cpu tick current
  | kill =>
    rcases map_eq_some_iff.1 h with ⟨tid, _, rfl⟩
    exact kill_uses cpu tid
  | devctl cmd =>
    rcases map_eq_some_iff.1 h with ⟨tid, _, rfl⟩
    exact devctl_uses cpu tid cmd
  | getPhysRegion physAddr =>
    rcases map_eq_some_iff.1 h with ⟨tid, _, rfl⟩
    exact getPhysRegion_uses cpu tid physAddr

end Uses

/-! ## Ownership -/

/-- Whoever is about to release a lock is the only CPU that holds it, a CPU between two operations
holds nothing, and no lock was released by a CPU that did not hold it. -/
structure Owned (k : Kernel) : Prop where
  release : ∀ cpu l rest, k.locks.code cpu = LockAction.release l :: rest →
    l ∈ k.locks.held cpu ∧ ∀ other, other ≠ cpu → l ∉ k.locks.held other
  settled : ∀ cpu, k.locks.code cpu = [] → k.locks.held cpu = 0
  clean : k.locks.misuse = false

def Event.Paired (_ : Kernel) : Event → Prop
  | .start _ op => op.Paired
  | .act _ => True

section Ownership

variable {k k' : Kernel} {cpu : Cpu} {op : Op}

lemma step_start (h : k.step (.start cpu op) = some k') :
    ∃ c, op.code cpu (k.current cpu) = some c ∧
      k.locks.begin cpu c.actions = some k'.locks := by
  simp only [Kernel.step] at h
  split at h
  · cases h
  · next c hcode =>
    rcases map_eq_some_iff.1 h with ⟨locks, hbegin, rfl⟩
    exact ⟨c, hcode, hbegin⟩

lemma step_act (h : k.step (.act cpu) = some k') :
    k.locks.act Lock.owner cpu = some k'.locks := by
  rcases map_eq_some_iff.1 h with ⟨locks, hact, rfl⟩
  exact hact

lemma step_inv {e : Event} (hinv : LockState.Inv Lock.owner k.locks) (hok : e.Paired k)
    (h : k.step e = some k') : LockState.Inv Lock.owner k'.locks := by
  cases e with
  | start cpu op =>
    rcases step_start h with ⟨c, hcode, hbegin⟩
    exact hinv.begin ((Op.code_run hcode).1 hok) (Op.code_uses cpu hcode) hbegin
  | act cpu => exact hinv.act (step_act h)

lemma step_doomed {e : Event} (hdoomed : k.locks.Doomed cpu) (h : k.step e = some k') :
    k'.locks.Doomed cpu := by
  cases e with
  | start other op =>
    rcases step_start h with ⟨c, _, hbegin⟩
    exact hdoomed.begin hbegin
  | act other => exact hdoomed.act (step_act h)

lemma owned_of_inv (h : LockState.Inv Lock.owner k.locks) : Owned k where
  release := fun _ _ _ hcode => h.release hcode
  settled := fun _ hcode => h.finished hcode
  clean := h.clean

lemma start_doomed (hinv : LockState.Inv Lock.owner k.locks) (hop : ¬ op.Paired)
    (h : k.step (.start cpu op) = some k') : k'.locks.Doomed cpu := by
  rcases step_start h with ⟨c, hcode, hbegin⟩
  rcases LockState.begin_some hbegin with ⟨hidle, hlocks⟩
  refine .inr ?_
  rw [hlocks]
  show holds (k.locks.held cpu) (Function.update k.locks.code cpu c.actions cpu) = none
  rw [Function.update_self, hinv.finished hidle]
  exact (Op.code_run hcode).2 hop

end Ownership

/-- As long as only paired operations are begun, on any number of CPUs and in any interleaving, each
lock is released by the CPU that holds it and as often as it was acquired.  Any other operation, once
the CPU is through with it, has released a lock that the CPU did not hold. -/
theorem lock_ownership (current : Cpu → Option Tid) (k : Kernel)
    (hrun : Run Kernel.step Event.Paired (Kernel.boot current) k) :
    Owned k ∧
      ∀ cpu op k₁ k₂, ¬ Op.Paired op → k.step (.start cpu op) = some k₁ →
        Run Kernel.step (fun _ _ => True) k₁ k₂ → k₂.locks.code cpu = [] →
          k₂.locks.misuse = true := by
  have hinv : LockState.Inv Lock.owner k.locks :=
    hrun.invariant (I := fun k => LockState.Inv Lock.owner k.locks) LockState.Inv.start
      fun _ _ _ hinv hok hs => step_inv hinv hok hs
  refine ⟨owned_of_inv hinv, ?_⟩
  intro cpu op k₁ k₂ hop hstart hrest hidle
  -- what the other CPUs do in the meantime changes nothing about the list of this one
  have hdoomed : k₂.locks.Doomed cpu :=
    hrest.invariant (I := fun k => k.locks.Doomed cpu) (start_doomed hinv hop hstart)
      fun _ _ _ hdoomed _ hs => step_doomed hdoomed hs
  exact hdoomed.finished hidle

/-- A wait for an interrupt on one CPU, with nothing to switch to, while another CPU switches. -/
def quietRun : List Event :=
  [.start 0 (.devctl (.waitOnIrq (.managed [] none))), .act 0, .act 0, .act 0, .act 0, .act 0, .act 0,
    .start 1 (.timer (.managed [1] (some 1))), .act 1, .act 1, .act 1]

theorem lock_ownership_quiet :
    ∃ k, exec Kernel.step (Kernel.boot some) quietRun = some k ∧ Owned k := by
  have hsome : (exec Kernel.step (Kernel.boot some) quietRun).isSome = true := by decide
  rcases Option.isSome_iff_exists.1 hsome with ⟨k, hk⟩
  have hpaired : ∀ e ∈ quietRun, ∀ k, e.Paired k := by
    intro e he k
    simp only [quietRun, List.mem_cons, List.not_mem_nil, or_false] at he
    rcases he with rfl | rfl | rfl | rfl | rfl | rfl | rfl | rfl | rfl | rfl | rfl
    all_goals first | exact rfl | exact trivial
  exact ⟨k, hk, (lock_ownership some k (exec_run hk hpaired)).1⟩

/-- A thread is killed on CPU 0; before the second release of the scheduler's lock, CPU 1 takes it
for a tick of its own. -/
def killRun : List Event :=
  .start 0 .kill :: List.replicate 10 (.act 0) ++ [.start 1 (.timer (.managed [1] none)), .act 1]

theorem kill_releases_other :
    ¬ ∀ (current : Cpu → Option Tid) (k : Kernel),
      Run Kernel.step (fun _ _ => True) (Kernel.boot current) k → Owned k := by
  intro hclaim
  have hstate : (exec Kernel.step (Kernel.boot some) killRun).map (fun k =>
    (k.locks.code 0, k.locks.held 0, k.locks.held 1)) =
      some ([release .scheduler], 0, {Lock.scheduler}) := by
    decide
  rcases Option.map_eq_some_iff.1 hstate with ⟨k, hk, heq⟩
  have howned := hclaim some k (exec_run hk fun _ _ _ => trivial)
  have hcode : k.locks.code 0 = [release .scheduler] := congrArg Prod.fst heq
  have hother : k.locks.held 1 = {Lock.scheduler} := congrArg (fun x => x.2.2) heq
  have hnot := (howned.release 0 .scheduler [] hcode).2 1 (by decide)
  rw [hother] at hnot
  exact hnot (Multiset.mem_singleton_self _)

end SigmaOS.Proc.Locks
