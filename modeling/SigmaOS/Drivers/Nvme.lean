import SigmaOS.Lib.PhaseRing
import SigmaOS.Lib.Run
import SigmaOS.Types.Bitmap

/-!
# Drivers.Nvme — queue pairs of an NVMe controller

`QueuePair` is the driver's `nvme::queue_pair` with the two queues it shares with the controller:
`sendCommand` and `poll` are `send_command` and the wait loop of `send_and_wait` with what follows
it.  `Controller` is the other side, as the NVMe specification has it: it works with the queue size
that it was told, takes submissions in order up to the tail doorbell, and posts completions in order
with a phase that inverts when its tail goes back to 0.  A doorbell value outside the queue is
rejected.

`Link` is a queue pair at work, with what has passed on it so far; `Device` has the admin and the I/O
queue.  The queues start out zeroed, as `libsigma_get_phys_region` answers cleared memory.  The
allocation of the queues succeeds; the console output is left out.
-/

namespace SigmaOS.Drivers.Nvme

open Lib SigmaOS.Types

/-! ## The driver -/

/-- A submission entry: the command id and the rest of the 64 bytes. -/
structure Command (β : Type) where
  cid : BitVec 16
  body : β
  deriving DecidableEq

/-- `code` and `code_type` of a completion. -/
structure Status where
  code : BitVec 8
  codeType : BitVec 3
  deriving DecidableEq

/-- A command was successful if both are zero; each type has codes of its own. -/
def Status.success (status : Status) : Bool :=
  decide (status.code = 0#8 ∧ status.codeType = 0#3)

/-- The phase bit and the status. -/
abbrev Completion := Bool × Status

structure QueuePair (β : Type) where
  nEntries : Nat
  availableCids : Bitmap
  submissionQueue : Nat → Command β
  submissionTail : BitVec 16
  submissionDoorbell : BitVec 16
  completionQueue : Nat → Completion
  completionHead : BitVec 16
  completionDoorbell : BitVec 16
  expectedPhase : Bool

/-- `tail++` or `head++` in 16 bits, and back to 0 at the end of the queue. -/
def advance (nEntries : Nat) (i : BitVec 16) : BitVec 16 :=
  if (i + 1#16).toNat = nEntries then 0#16 else i + 1#16

namespace QueuePair

variable {β : Type}

def new [Inhabited β] (nEntries : Nat) : QueuePair β where
  nEntries := nEntries
  availableCids := .driver 65536#64
  submissionQueue := fun _ => ⟨0#16, default⟩
  submissionTail := 0#16
  submissionDoorbell := 0#16
  completionQueue := fun _ => (false, ⟨0#8, 0#3⟩)
  completionHead := 0#16
  completionDoorbell := 0#16
  expectedPhase := true

/-- `queue_pair::send_command`; the bit of the command id is never set. -/
def sendCommand (q : QueuePair β) (body : β) : BitVec 16 × QueuePair β :=
  let cid := BitVec.ofNat 16 q.availableCids.getFreeBit
  let tail := advance q.nEntries q.submissionTail
  (cid, { q with
    submissionQueue := Function.update q.submissionQueue q.submissionTail.toNat ⟨cid, body⟩
    submissionTail := tail
    submissionDoorbell := tail })

/-- A look at the completion queue in `send_and_wait`: `none` while the phase is not the expected
one, then the result of the call, which is read from the code alone. -/
def poll (q : QueuePair β) : Option (Bool × QueuePair β) :=
  let entry := q.completionQueue q.completionHead.toNat
  if entry.1 = q.expectedPhase then
    let head := advance q.nEntries q.completionHead
    let wraps := (q.completionHead + 1#16).toNat = q.nEntries
    some (entry.2.code = 0#8, { q with
      completionHead := head
      completionDoorbell := head
      expectedPhase := if wraps then !q.expectedPhase else q.expectedPhase })
  else
    none

end QueuePair

/-! ## The controller -/

structure Controller where
  size : Nat
  submissionTail : Nat
  submissionHead : Nat
  completionHead : Nat
  completionTail : Nat
  phase : Bool
  deriving DecidableEq

namespace Controller

def new (size : Nat) : Controller :=
  ⟨size, 0, 0, 0, 0, true⟩

def ringSubmission (c : Controller) (value : BitVec 16) : Controller :=
  if value.toNat < c.size then { c with submissionTail := value.toNat } else c

def ringCompletion (c : Controller) (value : BitVec 16) : Controller :=
  if value.toNat < c.size then { c with completionHead := value.toNat } else c

def Idle (c : Controller) : Prop :=
  c.submissionHead = c.submissionTail

instance (c : Controller) : Decidable c.Idle :=
  inferInstanceAs (Decidable (_ = _))

def fetch (c : Controller) : Controller :=
  { c with submissionHead := nextIndex c.size c.submissionHead }

/-- One slot of the completion queue always stays free. -/
def Full (c : Controller) : Prop :=
  nextIndex c.size c.completionTail = c.completionHead

instance (c : Controller) : Decidable c.Full :=
  inferInstanceAs (Decidable (_ = _))

def post (c : Controller) : Controller :=
  { c with
    completionTail := nextIndex c.size c.completionTail
    phase := if c.completionTail + 1 = c.size then !c.phase else c.phase }

end Controller

/-- Both sides of a queue pair, with the commands sent and fetched, the completions posted and the
results returned so far. -/
structure Link (β : Type) where
  pair : QueuePair β
  controller : Controller
  waiting : Bool
  sent : List (Command β)
  fetched : List (Command β)
  posted : List Status
  returned : List Bool

inductive Op (β : Type)
  | send (body : β)
  | fetch
  | post (status : Status)
  | poll

/-- The controller posts only completions of some kind. -/
def Op.Posts {β : Type} (kind : Status → Prop) : Op β → Prop
  | .post status => kind status
  | _ => True

namespace Link

variable {β : Type}

def start [Inhabited β] (nEntries size : Nat) : Link β where
  pair := .new nEntries
  controller := .new size
  waiting := false
  sent := []
  fetched := []
  posted := []
  returned := []

/-- `send_and_wait` is entered only when the call before has returned. -/
def step (s : Link β) : Op β → Option (Link β)
  | .send body =>
    if s.waiting then
      none
    else
      let (cid, pair) := s.pair.sendCommand body
      some { s with
        pair := pair
        controller := s.controller.ringSubmission pair.submissionDoorbell
        waiting := true
        sent := s.sent ++ [⟨cid, body⟩] }
  | .fetch =>
    if s.controller.Idle then
      none
    else
      some { s with
        controller := s.controller.fetch
        fetched := s.fetched ++ [s.pair.submissionQueue s.controller.submissionHead] }
  | .post status =>
    if s.posted.length < s.fetched.length ∧ ¬ s.controller.Full then
      let queue := Function.update s.pair.completionQueue s.controller.completionTail
        (s.controller.phase, status)
      some { s with
        pair := { s.pair with completionQueue := queue }
        controller := s.controller.post
        posted := s.posted ++ [status] }
    else
      none
  | .poll =>
    if s.waiting then
      match s.pair.poll with
      | none => some s
      | some (ret, pair) =>
        some { s with
          pair := pair
          controller := s.controller.ringCompletion pair.completionDoorbell
          waiting := false
          returned := s.returned ++ [ret] }
    else
      none

/-- The controller fetches the commands that were sent, in order, and is not at rest before it has
all of them; every call that has returned has the result of its own completion, which was posted
before. -/
structure Right (s : Link β) : Prop where
  inOrder : s.fetched <+: s.sent
  complete : s.controller.Idle → s.fetched = s.sent
  answered : s.returned <+: s.posted.map Status.success

end Link

/-! ## The device -/

def nQueueEntries (mqes : BitVec 16) : Nat :=
  mqes.toNat + 1

/-- The number of entries of the admin queues, as the controller reads it in the 12-bit fields
`asqs` and `acqs` of AQA. -/
def adminSize (nEntries : Nat) : Nat :=
  (BitVec.ofNat 12 (nEntries - 1)).toNat + 1

/-- The number of entries of the I/O queues, as the controller reads it in the 16-bit field `size` of
the two commands of `register_queue_pair`. -/
def ioSize (nEntries : Nat) : Nat :=
  (BitVec.ofNat 16 (nEntries - 1)).toNat + 1

structure Device (β : Type) where
  admin : Link β
  io : Link β

namespace Device

variable {β : Type}

def start [Inhabited β] (mqes : BitVec 16) : Device β where
  admin := .start (nQueueEntries mqes) (adminSize (nQueueEntries mqes))
  io := .start (nQueueEntries mqes) (ioSize (nQueueEntries mqes))

def step (d : Device β) : Op β ⊕ Op β → Option (Device β)
  | .inl op => (d.admin.step op).map fun s => { d with admin := s }
  | .inr op => (d.io.step op).map fun s => { d with io := s }

def Right (d : Device β) : Prop :=
  d.admin.Right ∧ d.io.Right

def Posts (kind : Status → Prop) (_ : Device β) (op : Op β ⊕ Op β) : Prop :=
  op.elim (Op.Posts kind) (Op.Posts kind)

end Device

end SigmaOS.Drivers.Nvme
