import SigmaOS.Lib.Run
import SigmaOS.Proc.Context

/-!
# Proc.ContextIntegrity — every thread gets its own registers back

`syscall_handler` writes the return value of a call into the frame after the call, also when the
call has switched to another thread by then: the value goes to `rax` of the resumed thread.  The
caller, on the other hand, was saved with the number of the call in `rax`, unless the call is
`block_thread`, which sets its return value early.
-/

namespace SigmaOS.Proc.Process

open Lib

/-! ## Runs -/

inductive MachineOp
  | timer (regs : Regs)
  | syscall (regs : Regs) (ret : BitVec 64) (event : Event)
  | create (context : Context)
  | wake (t : Tid)
  | trigger (event : Event)
  | untrigger (event : Event)

namespace Machine

/-- An interrupt with the frame `regs`, or something the kernel does on the side. -/
def step (m : Machine) : MachineOp → Option Machine
  | .timer regs => some (m.timerHandler regs none)
  | .syscall regs ret event =>
    match m.current with
    | none => none
    | some t => some (m.syscallHandler t regs ret event)
  | .create context => some (m.create context)
  | .wake t =>
    if t < m.sched.count ∧ (m.sched.tasks t).state = .silent then
      some { m with sched := m.sched.setState t .idle }
    else
      none
  | .trigger event => some { m with sched := m.sched.trigger event }
  | .untrigger event => some { m with sched := m.sched.untrigger event }

def start : Machine :=
  { sched := Sched.start fun c => c = 0
    contexts := fun _ => Context.blank
    frame := none
    out := fun _ => none
    expected := none }

/-- A system call that returns to its caller, or that finds 0 in `rax` of whichever thread it
switches to. -/
def Courteous (m : Machine) : MachineOp → Prop
  | .syscall regs _ event =>
    match decode regs with
    | .yield => False
    | .waitIrq => m.sched.triggers event ≠ 0
    | .blockIpc => m.sched.triggers event ≠ 0 ∨
        ∀ u, u < m.sched.count → m.sched.Ready u → (m.contexts u).rax = 0#64
    | _ => True
  | _ => True

/-- A thread that the last handler has resumed gets the registers it was switched out with, and the
return value of its own pending call. -/
def Intact (m : Machine) : Prop :=
  ∀ g, m.expected = some g → ∃ f, m.frame = some f ∧ f.Same g

/-- What carries it: the context of a thread that is switched out is what it is to be resumed with. -/
structure Kept (m : Machine) : Prop where
  intact : m.Intact
  saved : ∀ t g, m.current ≠ some t → m.out t = some g → m.contexts t = saveContext g
  bound : ∀ t, m.current = some t → t < m.sched.count

@[simp] lemma saveContext_loadContext (context : Context) :
    saveContext (loadContext context) = context := by
  simp [saveContext, loadContext]

lemma saveContext_setReturn (f : Regs) (value : BitVec 64) :
    saveContext (f.setReturn value) = { saveContext f with rax := value } := rfl

lemma setReturn_rax (f : Regs) : f.setReturn f.rax = f := rfl

variable {m : Machine} {regs : Regs} {t : Tid}

lemma saveCurrent_others (regs : Regs) (pending : Option (BitVec 64)) (ht : m.current ≠ some t) :
    (m.saveCurrent regs pending).contexts t = m.contexts t ∧
      (m.saveCurrent regs pending).out t = m.out t := by
  cases hcur : m.current with
  | none => simp [saveCurrent, hcur]
  | some u =>
    have htu : t ≠ u := by
      rintro rfl
      exact ht hcur
    simp [saveCurrent, hcur, htu]

lemma saveCurrent_current (regs : Regs) (pending : Option (BitVec 64)) (ht : m.current = some t) :
    (m.saveCurrent regs pending).contexts t = saveContext regs ∧
      (m.saveCurrent regs pending).out t = some (regs.withPending pending) := by
  simp [saveCurrent, ht]

structure Handled (m : Machine) (regs : Regs) (pending : Option (BitVec 64)) (m' : Machine) :
    Prop where
  contexts : m'.contexts = (m.saveCurrent regs pending).contexts
  out : m'.out = (m.saveCurrent regs pending).out
  count : m'.sched.count = m.sched.count
  ends : (m.sched.schedule m.current = none ∧ m'.current = none ∧ m'.frame = none ∧
      m'.expected = none) ∨
    ∃ new s', m.sched.schedule m.current = some (new, s') ∧ m'.current = some new ∧
      m'.frame = some (loadContext (m'.contexts new)) ∧ m'.expected = m'.out new

lemma schedTimer_count (s : Sched) (c : Cpu) : (s.timerHandler c).count = s.count := by
  have hout : ∀ (r : Sched) (old : Option Tid), (r.switchOut old).count = r.count := by
    intro r old
    cases old with
    | none => rfl
    | some u =>
      by_cases hrun : (r.tasks u).state = .running
      · simp [Sched.switchOut, hrun, Sched.setState]
      · simp [Sched.switchOut, hrun]
  cases hsched : s.schedule (s.current c) with
  | none => simp [Sched.timerHandler, hsched, Sched.setCurrent, hout]
  | some result =>
    rcases result with ⟨new, s'⟩
    simp [Sched.timerHandler, hsched, Sched.setCurrent, Sched.setState, hout,
      (Sched.schedule_spec hsched).count]

/-- The handler saves the old context and loads the new one, or idles. -/
lemma timerHandler_handled (m : Machine) (regs : Regs) (pending : Option (BitVec 64)) :
    m.Handled regs pending (m.timerHandler regs pending) := by
  cases hsched : m.sched.schedule (m.sched.current 0) with
  | none =>
    refine ⟨?_, ?_, ?_, .inl ⟨hsched, ?_, ?_, ?_⟩⟩
    · simp [timerHandler, current, hsched]
    · simp [timerHandler, current, hsched]
    · simp [timerHandler, current, hsched, schedTimer_count]
    · simp [timerHandler, current, hsched, Sched.timerHandler, Sched.setCurrent]
    · simp [timerHandler, current, hsched]
    · simp [timerHandler, current, hsched]
  | some result =>
    rcases result with ⟨new, s'⟩
    refine ⟨?_, ?_, ?_, .inr ⟨new, s', hsched, ?_, ?_, ?_⟩⟩
    · simp [timerHandler, current, hsched]
    · simp [timerHandler, current, hsched]
    · simp [timerHandler, current, hsched, schedTimer_count]
    · simp [timerHandler, current, hsched, Sched.timerHandler, Sched.setCurrent, Sched.setState]
    · simp [timerHandler, current, hsched]
    · simp [timerHandler, current, hsched]

variable {m' : Machine} {pending : Option (BitVec 64)} {value : BitVec 64} {event : Event}

section

variable (h : m.Kept) (hpending : regs.withPending pending = regs) (hm' : m.Handled regs pending m')
include h hpending hm'

lemma Kept.all_saved : ∀ u g, m'.out u = some g → m'.contexts u = saveContext g := by
  intro u g hg
  rw [hm'.out] at hg
  rw [hm'.contexts]
  by_cases hu : m.current = some u
  · rcases saveCurrent_current regs pending hu with ⟨hcontext, hout⟩
    rw [hout, hpending] at hg
    rw [hcontext, Option.some.inj hg]
  · rcases saveCurrent_others regs pending hu with ⟨hcontext, hout⟩
    rw [hout] at hg
    rw [hcontext]
    exact h.saved u g hu hg

lemma Kept.handled : m'.Kept := by
  have hall := h.all_saved hpending hm'
  refine ⟨?_, fun u g _ hg => hall u g hg, ?_⟩
  · intro g hg
    rcases hm'.ends with ⟨_, _, _, hnone⟩ | ⟨new, s', _, _, hframe, hexpected⟩
    · rw [hnone] at hg
      exact absurd hg (by simp)
    · refine ⟨_, hframe, ?_⟩
      rw [hexpected] at hg
      rw [Regs.Same, saveContext_loadContext]
      exact hall new g hg
  · intro u hu
    rw [hm'.count]
    rcases hm'.ends with ⟨_, hnone, _, _⟩ | ⟨new, s', hsched, hcur, _, _⟩
    · rw [hnone] at hu
      exact absurd hu (by simp)
    · rw [hcur] at hu
      rw [← Option.some.inj hu]
      exact Sched.schedule_lt hsched

end

/-! ## System calls -/

lemma Kept.of_sched {s : Sched} (h : m.Kept) (hcurrent : s.current = m.sched.current)
    (hcount : m.sched.count ≤ s.count) : ({ m with sched := s } : Machine).Kept := by
  have hsame : ({ m with sched := s } : Machine).current = m.current := by simp [current, hcurrent]
  refine ⟨h.intact, ?_, ?_⟩
  · intro u g hu hg
    rw [hsame] at hu
    exact h.saved u g hu hg
  · intro u hu
    rw [hsame] at hu
    exact Nat.lt_of_lt_of_le (h.bound u hu) hcount

@[simp] lemma returnValue_contexts (value : BitVec 64) :
    (m.returnValue value).contexts = m.contexts := rfl

@[simp] lemma returnValue_sched (value : BitVec 64) : (m.returnValue value).sched = m.sched := rfl

lemma Kept.returnValue (h : m.Kept) (hrax : ∀ f, m.frame = some f → f.rax = value) :
    (m.returnValue value).Kept := by
  refine ⟨?_, h.saved, h.bound⟩
  intro g hg
  rcases h.intact g hg with ⟨f, hf, hsame⟩
  have hreturn : f.setReturn value = f := by rw [← hrax f hf, setReturn_rax]
  exact ⟨f, by simp [Machine.returnValue, hf, hreturn], hsame⟩

lemma Kept.plainReturn (h : m.Kept) : (m.plainReturn regs value).Kept :=
  ⟨fun _ hg => absurd hg (by simp [Machine.plainReturn]), h.saved, h.bound⟩

section

variable (h : m.Kept) (ht : m.current = some t)
include h ht

lemma block_self (htriggered : m.sched.triggers event ≠ 0) :
    ∃ s', (m.sched.block t event).schedule (some t) = some (t, s') := by
  refine Sched.schedule_self (h.bound t ht) (.inr ⟨?_, ?_⟩)
  · simp [Sched.block]
  · simpa [Sched.block] using htriggered

/-- A wait for a message; the result goes to the thread that is switched to. -/
lemma Kept.blockIpc (hok : m.sched.triggers event ≠ 0 ∨
      ∀ u, u < m.sched.count → m.sched.Ready u → (m.contexts u).rax = 0#64) :
    (({ m with sched := m.sched.block t event }.timerHandler (regs.setReturn 0#64)
      (some 0#64)).returnValue 0#64).Kept := by
  have hblocked : ({ m with sched := m.sched.block t event } : Machine).Kept :=
    h.of_sched rfl (Nat.le_refl _)
  have hhandled := timerHandler_handled { m with sched := m.sched.block t event }
    (regs.setReturn 0#64) (some 0#64)
  refine (hblocked.handled rfl hhandled).returnValue ?_
  intro f hf
  rcases hhandled.ends with ⟨_, _, hnone, _⟩ | ⟨new, s', hsched, _, hframe, _⟩
  · rw [hnone] at hf
    exact absurd hf (by simp)
  rw [hframe] at hf
  rw [← Option.some.inj hf]
  show (_ : Context).rax = 0#64
  rw [hhandled.contexts]
  have hcur : ({ m with sched := m.sched.block t event } : Machine).current = some t := ht
  by_cases hnew : new = t
  · rw [hnew, (saveCurrent_current _ _ hcur).1]
    rfl
  · -- the thread is another one: it was ready before, so it was saved with 0
    have hother : ({ m with sched := m.sched.block t event } : Machine).current ≠ some new := by
      rw [hcur]
      exact fun heq => hnew (Option.some.inj heq).symm
    rw [(saveCurrent_others _ _ hother).1]
    rw [hcur] at hsched
    rcases hok with htriggered | hzero
    · rcases block_self h ht htriggered with ⟨r, hr⟩
      have hpair : t = new ∧ r = s' := by simpa [hr] using hsched
      exact absurd hpair.1.symm hnew
    · have hlt : new < m.sched.count := Sched.schedule_lt (s := m.sched.block t event) hsched
      refine hzero new hlt ?_
      simpa [Sched.Ready, Sched.block, hnew] using (Sched.schedule_spec hsched).ready

/-- A wait for an interrupt that has come already. -/
lemma Kept.waitIrq (htriggered : m.sched.triggers event ≠ 0) :
    (({ m with sched := m.sched.block t event }.timerHandler regs
      (some value)).returnValue value).Kept := by
  have hhandled := timerHandler_handled { m with sched := m.sched.block t event } regs (some value)
  have hcur : ({ m with sched := m.sched.block t event } : Machine).current = some t := ht
  rcases block_self h ht htriggered with ⟨r, hr⟩
  rcases saveCurrent_current regs (some value) hcur with ⟨hcontext, hout⟩
  -- the caller is picked again, and gets its own return value
  rcases hhandled.ends with ⟨hidle, _⟩ | ⟨new, s', hsched, hnew, hframe, hexpected⟩
  · rw [hcur, hr] at hidle
    exact absurd hidle (by simp)
  rw [hcur] at hsched
  have hpair : t = new ∧ r = s' := by simpa [hr] using hsched
  rw [← hpair.1] at hnew hframe hexpected
  rw [hhandled.contexts, hcontext] at hframe
  rw [hhandled.out, hout] at hexpected
  refine ⟨?_, ?_, ?_⟩
  · intro g hg
    have hgreturn : regs.setReturn value = g := Option.some.inj (hexpected.symm.trans hg)
    refine ⟨(loadContext (saveContext regs)).setReturn value, ?_, ?_⟩
    · simp [Machine.returnValue, hframe]
    · rw [← hgreturn, Regs.Same, saveContext_setReturn, saveContext_setReturn,
        saveContext_loadContext]
  · intro u g hu hg
    have htu : m.current ≠ some u := by
      rw [ht]
      exact fun heq => hu (hnew.trans heq)
    rcases saveCurrent_others regs (some value) (m := { m with sched := m.sched.block t event })
      htu with ⟨hcontextu, houtu⟩
    have hg' : m.out u = some g := by
      rw [← houtu, ← hhandled.out]
      exact hg
    rw [returnValue_contexts, hhandled.contexts, hcontextu]
    exact h.saved u g htu hg'
  · intro u hu
    have hut : t = u := Option.some.inj (hnew.symm.trans hu)
    rw [returnValue_sched, hhandled.count, ← hut]
    exact h.bound t ht

end

lemma createBlockedThread_count (s : Sched) : s.count ≤ s.createBlockedThread.count :=
  Nat.le_max_left _ _

lemma Kept.create {context : Context} (h : m.Kept) : (m.create context).Kept := by
  refine ⟨h.intact, ?_, ?_⟩
  · intro u g hu hg
    by_cases hnew : u = freeSlot (fun i => (m.sched.tasks i).state) m.sched.count
    · rw [hnew] at hg
      simp [Machine.create] at hg
    · have hg' : m.out u = some g := by simpa [Machine.create, hnew] using hg
      simpa [Machine.create, hnew] using h.saved u g hu hg'
  · intro u hu
    exact Nat.lt_of_lt_of_le (h.bound u hu) (createBlockedThread_count m.sched)

section

variable (h : m.Kept) (ht : m.current = some t)
include h ht

/-- `fork` keeps every saved context. -/
lemma Kept.fork : (m.fork t regs).Kept := by
  refine ⟨fun _ hg => absurd hg (by simp [Machine.fork]), ?_, ?_⟩
  · intro u g hu hg
    have htu : u ≠ t := by
      rintro rfl
      exact hu ht
    by_cases hnew : u = freeSlot (fun i => (m.sched.tasks i).state) m.sched.count
    · rw [hnew] at hg
      simp [Machine.fork] at hg
    · have hg' : m.out u = some g := by simpa [Machine.fork, hnew] using hg
      have hcur : m.current ≠ some u := by
        rw [ht]
        exact fun heq => htu (Option.some.inj heq).symm
      simpa [Machine.fork, hnew, htu] using h.saved u g hcur hg'
  · intro u hu
    exact Nat.lt_of_lt_of_le (h.bound u hu) (createBlockedThread_count m.sched)

/-- `kill` keeps them too. -/
lemma Kept.kill : (m.kill t).Kept := by
  refine ⟨fun _ hg => absurd hg (by simp [Machine.kill]), ?_, ?_⟩
  · intro u g _ hg
    have htu : u ≠ t := by
      rintro rfl
      simp [Machine.kill] at hg
    have hg' : m.out u = some g := by simpa [Machine.kill, htu] using hg
    have hcur : m.current ≠ some u := by
      rw [ht]
      exact fun heq => htu (Option.some.inj heq).symm
    simpa [Machine.kill, htu] using h.saved u g hcur hg'
  · intro u hu
    simp [Machine.kill, current, Sched.kill, Sched.setCurrent] at hu

/-- A system call keeps the contexts of the threads not running. -/
lemma Kept.syscallHandler {ret : BitVec 64} (hok : m.Courteous (.syscall regs ret event)) :
    (m.syscallHandler t regs ret event).Kept := by
  cases hcall : decode regs with
  | kill => simpa [Machine.syscallHandler, hcall] using h.kill ht
  | fork => simpa [Machine.syscallHandler, hcall] using h.fork ht
  | yield => simp [Courteous, hcall] at hok
  | blockForever =>
    have hsilent : ({ m with sched := m.sched.setState t .silent } : Machine).Kept :=
      h.of_sched rfl (Nat.le_refl _)
    simpa [Machine.syscallHandler, hcall] using hsilent.plainReturn
  | blockIpc =>
    have hready := by simpa only [Courteous, hcall] using hok
    simpa [Machine.syscallHandler, hcall] using h.blockIpc ht hready
  | blockUnknown => simpa [Machine.syscallHandler, hcall] using h.plainReturn
  | waitIrq =>
    have htriggered := by simpa only [Courteous, hcall] using hok
    simpa [Machine.syscallHandler, hcall] using h.waitIrq ht htriggered
  | other => simpa [Machine.syscallHandler, hcall] using h.plainReturn
  | unknown => simpa [Machine.syscallHandler, hcall] using h.plainReturn

end

/-- Every courteous step keeps the contexts. -/
lemma Kept.step {op : MachineOp} (h : m.Kept) (hok : m.Courteous op) (hs : m.step op = some m') :
    m'.Kept := by
  cases op with
  | timer regs =>
    cases hs
    exact h.handled rfl (timerHandler_handled m regs none)
  | syscall regs ret event =>
    simp only [Machine.step] at hs
    split at hs
    · cases hs
    next hcur =>
    cases hs
    exact h.syscallHandler hcur hok
  | create context =>
    cases hs
    exact h.create
  | wake t =>
    simp only [Machine.step] at hs
    split at hs
    · cases hs
      exact h.of_sched rfl (Nat.le_refl _)
    · cases hs
  | trigger event =>
    cases hs
    exact h.of_sched rfl (Nat.le_refl _)
  | untrigger event =>
    cases hs
    exact h.of_sched rfl (Nat.le_refl _)

lemma start_kept : start.Kept := by
  refine ⟨fun _ hg => absurd hg (by simp [start]), fun _ _ _ hg => absurd hg (by simp [start]), ?_⟩
  intro u hu
  have hku : kernelThread = u := by simpa [current, start, Sched.start] using hu
  rw [← hku]
  exact Nat.zero_lt_one

end Machine

/-- In every run whose system calls are courteous, each thread that is resumed after it was switched
out gets its own registers back, with the return value of its own pending call in `rax`. -/
theorem registers_restored {m : Machine}
    (hrun : Run Machine.step Machine.Courteous Machine.start m) : m.Intact :=
  (hrun.invariant Machine.start_kept fun _ _ _ ht hok hs => ht.step hok hs).intact

def regsAt (rax rip : BitVec 64) : Regs :=
  loadContext { Context.blank with rax := rax, rip := rip }

def preempted : List MachineOp :=
  [.create Context.blank, .create Context.blank, .wake 1, .wake 2, .timer (regsAt 0#64 16#64),
    .timer (regsAt 9#64 32#64), .timer (regsAt 5#64 48#64)]

theorem registers_restored_sample :
    ∃ m, exec Machine.step Machine.start preempted = some m ∧ m.current = some 1 ∧
      m.expected = some (regsAt 9#64 32#64) ∧ m.Intact := by
  refine ⟨_, rfl, rfl, rfl, ?_⟩
  have hcourteous : ∀ op ∈ preempted, ∀ m : Machine, m.Courteous op := by
    simp [preempted, Machine.Courteous]
  exact registers_restored (@exec_run _ _ _ _ preempted _ _ rfl hcourteous)

/-- The first thread yields, and the second one, which was preempted with 5 in `rax`, is resumed with
the return value 0 of `yield`. -/
theorem registers_not_restored :
    ¬ ∀ m, Run Machine.step (fun _ _ => True) Machine.start m → m.Intact := by
  intro hall
  have hrun : ∃ m, exec Machine.step Machine.start
      (preempted ++ [.syscall (regsAt 4#64 40#64) 0#64 0]) = some m ∧
        m.expected = some (regsAt 5#64 48#64) ∧ m.frame = some (regsAt 0#64 48#64) :=
    ⟨_, rfl, rfl, rfl⟩
  rcases hrun with ⟨m, hm, hexpected, hframe⟩
  rcases hall m (exec_run hm fun _ _ _ => trivial) _ hexpected with ⟨f, hf, hsame⟩
  rw [hframe] at hf
  have hrax : (saveContext f).rax = 5#64 := by
    rw [hsame]
    rfl
  rw [← Option.some.inj hf] at hrax
  exact absurd hrax (by decide)

end SigmaOS.Proc.Process
