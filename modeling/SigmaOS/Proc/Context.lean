import SigmaOS.Proc.Scheduler

/-!
# Proc.Context — register frames on one CPU

An interrupt pushes the registers of the interrupted thread as a frame, and whatever is in the frame
when the handler returns is popped.  `timer_handler` switches threads by saving the frame in the
context of the old thread and overwriting it with the context of the new one.  `syscall_handler`
then writes the return value of the call into `rax` of the frame.

`Machine` has one CPU.  `frame` is what the last handler left to be popped, `none` when the CPU went
idle.  Two fields record what should happen and steer nothing: `out t` is the frame thread `t` is to be
resumed with, its own interrupted frame with the return value of its own pending call in `rax`, and
`expected` is that frame for a thread the last handler has resumed.

The vector, the error code, `cr3`, the `fs` base and the SIMD state are left out.
-/

namespace SigmaOS.Proc.Process

/-! ## Frames and contexts -/

structure Regs where
  rax : BitVec 64
  rbx : BitVec 64
  rcx : BitVec 64
  rdx : BitVec 64
  rdi : BitVec 64
  rsi : BitVec 64
  rbp : BitVec 64
  rsp : BitVec 64
  r8 : BitVec 64
  r9 : BitVec 64
  r10 : BitVec 64
  r11 : BitVec 64
  r12 : BitVec 64
  r13 : BitVec 64
  r14 : BitVec 64
  r15 : BitVec 64
  cs : BitVec 64
  ss : BitVec 64
  ds : BitVec 64
  rip : BitVec 64
  rflags : BitVec 64
  deriving DecidableEq

/-- `thread_context`; the selectors have 16 bits. -/
structure Context where
  rax : BitVec 64
  rbx : BitVec 64
  rcx : BitVec 64
  rdx : BitVec 64
  rdi : BitVec 64
  rsi : BitVec 64
  rbp : BitVec 64
  rsp : BitVec 64
  r8 : BitVec 64
  r9 : BitVec 64
  r10 : BitVec 64
  r11 : BitVec 64
  r12 : BitVec 64
  r13 : BitVec 64
  r14 : BitVec 64
  r15 : BitVec 64
  cs : BitVec 16
  ss : BitVec 16
  ds : BitVec 16
  rip : BitVec 64
  rflags : BitVec 64
  deriving DecidableEq

def saveContext (regs : Regs) : Context where
  rax := regs.rax
  rbx := regs.rbx
  rcx := regs.rcx
  rdx := regs.rdx
  rdi := regs.rdi
  rsi := regs.rsi
  rbp := regs.rbp
  rsp := regs.rsp
  r8 := regs.r8
  r9 := regs.r9
  r10 := regs.r10
  r11 := regs.r11
  r12 := regs.r12
  r13 := regs.r13
  r14 := regs.r14
  r15 := regs.r15
  cs := regs.cs.setWidth 16
  ss := regs.ss.setWidth 16
  ds := regs.ds.setWidth 16
  rip := regs.rip
  rflags := regs.rflags

/-- What `switch_context` puts into the frame. -/
def loadContext (context : Context) : Regs where
  rax := context.rax
  rbx := context.rbx
  rcx := context.rcx
  rdx := context.rdx
  rdi := context.rdi
  rsi := context.rsi
  rbp := context.rbp
  rsp := context.rsp
  r8 := context.r8
  r9 := context.r9
  r10 := context.r10
  r11 := context.r11
  r12 := context.r12
  r13 := context.r13
  r14 := context.r14
  r15 := context.r15
  cs := context.cs.setWidth 64
  ss := context.ss.setWidth 64
  ds := context.ds.setWidth 64
  rip := context.rip
  rflags := context.rflags

def Context.blank : Context where
  rax := 0#64
  rbx := 0#64
  rcx := 0#64
  rdx := 0#64
  rdi := 0#64
  rsi := 0#64
  rbp := 0#64
  rsp := 0#64
  r8 := 0#64
  r9 := 0#64
  r10 := 0#64
  r11 := 0#64
  r12 := 0#64
  r13 := 0#64
  r14 := 0#64
  r15 := 0#64
  cs := 0#16
  ss := 0#16
  ds := 0#16
  rip := 0#64
  rflags := 0#64

/-- Two frames agree in the general-purpose registers, `rip`, `rflags` and the selectors. -/
def Regs.Same (f g : Regs) : Prop :=
  saveContext f = saveContext g

def Regs.setReturn (f : Regs) (value : BitVec 64) : Regs :=
  { f with rax := value }

/-- The frame with the return value of a pending call, if there is one. -/
def Regs.withPending (f : Regs) : Option (BitVec 64) → Regs
  | none => f
  | some value => f.setReturn value

structure Machine where
  sched : Sched
  contexts : Tid → Context
  frame : Option Regs
  out : Tid → Option Regs
  expected : Option Regs

namespace Machine

def current (m : Machine) : Option Tid :=
  m.sched.current 0

/-- The frame `regs` of the current thread is saved; `pending` is the return value of the system call
the thread is in, if it is in one. -/
def saveCurrent (m : Machine) (regs : Regs) (pending : Option (BitVec 64)) : Machine :=
  match m.current with
  | none => m
  | some t =>
    { m with
      contexts := Function.update m.contexts t (saveContext regs)
      out := Function.update m.out t (some (regs.withPending pending)) }

/-- `timer_handler`, with `switch_context` or `idle_cpu`. -/
def timerHandler (m : Machine) (regs : Regs) (pending : Option (BitVec 64)) : Machine :=
  let saved := m.saveCurrent regs pending
  match m.sched.schedule m.current with
  | none =>
    { saved with
      sched := m.sched.timerHandler 0
      frame := none
      expected := none }
  | some (new, _) =>
    { saved with
      sched := m.sched.timerHandler 0
      frame := some (loadContext (saved.contexts new))
      expected := saved.out new }

/-- The end of `syscall_handler`: the return value goes to the frame, whichever thread it belongs to
by then.  A call that went idle does not come back. -/
def returnValue (m : Machine) (value : BitVec 64) : Machine :=
  { m with frame := m.frame.map fun f => f.setReturn value }

/-! ## System calls -/

/-- The calls that do more than compute a return value. -/
inductive Call
  | kill
  | fork
  | yield
  | blockForever
  | blockIpc
  | blockUnknown
  | waitIrq
  | other
  | unknown
  deriving DecidableEq

/-- Which call a frame asks for: the table `syscalls`, the reasons of `block_thread` and the command
`devctl_cmd_wait_on_irq`. -/
def decode (regs : Regs) : Call :=
  if regs.rax = 2#64 then .kill
  else if regs.rax = 3#64 then .fork
  else if regs.rax = 4#64 then .yield
  else if regs.rax = 6#64 then
    if regs.rbx = 0#64 then .blockForever
    else if regs.rbx = 1#64 then .blockIpc
    else .blockUnknown
  else if regs.rax = 14#64 then
    if regs.rbx = 6#64 then .waitIrq else .other
  else if regs.rax < 16#64 then .other
  else .unknown

/-- A call that returns to its caller at once. -/
def plainReturn (m : Machine) (regs : Regs) (value : BitVec 64) : Machine :=
  { m with frame := some (regs.setReturn value), expected := none }

/-- `fork` by thread `t`: the child gets the frame with 0 in `rax`. -/
def fork (m : Machine) (t : Tid) (regs : Regs) : Machine :=
  let child := freeSlot (fun i => (m.sched.tasks i).state) m.sched.count
  { m with
    sched := m.sched.createBlockedThread.setState child .idle
    contexts := Function.update (Function.update m.contexts t (saveContext regs)) child
      { saveContext regs with rax := 0#64 }
    out := Function.update m.out child none
    frame := some (regs.setReturn (BitVec.ofNat 64 child))
    expected := none }

def kill (m : Machine) (t : Tid) : Machine :=
  { sched := m.sched.kill 0 t
    contexts := Function.update m.contexts t Context.blank
    frame := none
    out := Function.update m.out t none
    expected := none }

/-- `syscall_handler` for thread `t`.  The value `ret` stands for what a call computes that is not
modelled here, and `event` for the event that `block_thread` and `devctl` look up. -/
def syscallHandler (m : Machine) (t : Tid) (regs : Regs) (ret : BitVec 64) (event : Event) :
    Machine :=
  match decode regs with
  | .kill => m.kill t
  | .fork => m.fork t regs
  | .yield => (m.timerHandler regs (some 0#64)).returnValue 0#64
  | .blockForever => { m with sched := m.sched.setState t .silent }.plainReturn regs 0#64
  | .blockIpc =>
    ({ m with sched := m.sched.block t event }.timerHandler (regs.setReturn 0#64)
      (some 0#64)).returnValue 0#64
  | .blockUnknown => m.plainReturn regs 0#64
  | .waitIrq =>
    ({ m with sched := m.sched.block t event }.timerHandler regs
      (some (BitVec.allOnes 64))).returnValue (BitVec.allOnes 64)
  | .other => m.plainReturn regs ret
  | .unknown => m.plainReturn regs 1#64

/-- `create_blocked_thread`, and the context the loader gives to the new thread. -/
def create (m : Machine) (context : Context) : Machine :=
  let tid := freeSlot (fun i => (m.sched.tasks i).state) m.sched.count
  { m with
    sched := m.sched.createBlockedThread
    contexts := Function.update m.contexts tid context
    out := Function.update m.out tid none }

end Machine

end SigmaOS.Proc.Process
