import SigmaOS.Drivers.Xhci
import SigmaOS.Lib.Run

/-!
# Drivers.XhciTransfer — commands, control transfers and their completion events

`send_command` and `send_control` put blocks on a ring and wait until `handle_irq` has filed a
completion event in the ring's map `events`.  The two kinds of rings have keys of their own: a command
waits under the index of its block, a control transfer under the index after its last block.  No entry
of `events` is ever cleared.

`Exchange` is the driver with the other side: the blocks that were put on each ring, the events that
were delivered for them, and the calls that have returned.  The contents of the buffers are left out.
-/

namespace SigmaOS.Drivers.Xhci

/-! ## Blocks -/

def setField (word : BitVec 32) (pos width : Nat) (value : BitVec 32) : BitVec 32 :=
  let mask := BitVec.ofNat 32 (2 ^ width - 1) <<< pos
  (word &&& ~~~mask) ||| ((value <<< pos) &&& mask)

structure Packet where
  requestType : BitVec 8
  request : BitVec 8
  value : BitVec 16
  index : BitVec 16
  length : BitVec 16
  deriving DecidableEq

def transferEvent : BitVec 6 := 32#6

def commandCompletionEvent : BitVec 6 := 33#6

namespace RawTrb

def trbPtr (t : RawTrb) : BitVec 64 := t.data1 ++ t.data0

def endpointId (t : RawTrb) : BitVec 5 := t.data3.extractLsb' 16 5

def slotId (t : RawTrb) : BitVec 8 := t.data3.extractLsb' 24 8

/-- `send_control` inverts the cycle bit that it finds. -/
def flipCycle (t : RawTrb) : RawTrb :=
  let state := if t.data3 &&& 1#32 ≠ 0#32 then 0#32 else 1#32
  { t with data3 := state ||| (t.data3 &&& ~~~1#32) }

def setupStage (packet : Packet) (t : RawTrb) : RawTrb where
  data0 := packet.value ++ packet.request ++ packet.requestType
  data1 := packet.length ++ packet.index
  data2 := setField t.data2 0 16 8#32
  data3 := setField (setField (setField t.data3 10 6 2#32) 16 2 3#32) 6 1 1#32

def direction (write : Bool) : BitVec 32 := if write then 0#32 else 1#32

def dataStage (packet : Packet) (write : Bool) (physicalAddr : BitVec 64) (t : RawTrb) : RawTrb where
  data0 := physicalAddr.extractLsb' 0 32
  data1 := physicalAddr.extractLsb' 32 32
  data2 := setField t.data2 0 16 (packet.length.setWidth 32)
  data3 := setField (setField t.data3 10 6 3#32) 16 1 (direction write)

def statusStage (write : Bool) (t : RawTrb) : RawTrb :=
  { t with data3 := setField (setField (setField t.data3 10 6 4#32) 5 1 1#32) 16 1 (direction write) }

end RawTrb

namespace TlbRing

/-- A block of a control transfer is filled in place. -/
def putStage (r : TlbRing) (fill : RawTrb → RawTrb) : Nat × TlbRing :=
  let (index, r) := r.getTrb
  (index, { r with entries := Function.update r.entries index (fill (r.entries index)).flipCycle })

/-- The key that `send_control` waits under, from the enqueue pointer after its last block. -/
def controlIndex (r : TlbRing) : BitVec 64 :=
  (BitVec.ofNat 32 (r.enqueue / 0x10)).setWidth 64

/-- `send_control` up to its wait: the indices of its blocks, the ring, and the key it waits under.
`dma` is the region for the data, `none` if its allocation fails; then the call returns at once, with
the setup block on the ring. -/
def sendControl (r : TlbRing) (packet : Packet) (write : Bool) (dma : Option (BitVec 64)) :
    List Nat × TlbRing × Option (BitVec 64) :=
  let (setup, r) := r.putStage (RawTrb.setupStage packet)
  if packet.length ≠ 0#16 then
    match dma with
    | none => ([setup], r, none)
    | some physicalAddr =>
      let (data, r) := r.putStage (RawTrb.dataStage packet write physicalAddr)
      let (status, r) := r.putStage (RawTrb.statusStage write)
      ([setup, data, status], r, some r.controlIndex)
  else
    let (status, r) := r.putStage (RawTrb.statusStage write)
    ([setup, status], r, some r.controlIndex)

end TlbRing

/-! ## The controller -/

/-- The command ring, or the ring `command` of a port. -/
inductive RingId
  | command
  | port (p : Nat)
  deriving DecidableEq

structure TrbEvent where
  trb : RawTrb
  finished : Bool

structure DriverRing where
  ring : TlbRing
  events : BitVec 64 → TrbEvent

structure Controller where
  rings : RingId → DriverRing
  slotId : Nat → BitVec 8
  portBySlotId : BitVec 8 → Option Nat

namespace Controller

def new (base : RingId → BitVec 64) (slotId : Nat → BitVec 8)
    (portBySlotId : BitVec 8 → Option Nat) : Controller where
  rings := fun id => ⟨.new 0x1000 (base id), fun _ => ⟨blankTrb, false⟩⟩
  slotId := slotId
  portBySlotId := portBySlotId

def finish (c : Controller) (id : RingId) (index : BitVec 64) (event : RawTrb) : Controller :=
  let events := Function.update (c.rings id).events index ⟨event, true⟩
  { c with rings := Function.update c.rings id { c.rings id with events := events } }

/-- The switch of `handle_irq` for one event. -/
def handleEvent (c : Controller) (event : RawTrb) : Option Controller :=
  if event.trbType = transferEvent then
    if event.endpointId = 1#5 then
      match c.portBySlotId event.slotId with
      | none => none
      | some p =>
        let index := (event.trbPtr - (c.rings (.port p)).ring.physicalAddr) / 0x10#64
        let index := if index = 0xfe#64 then -1#64 else index
        some (c.finish (.port p) (index + 1#64) event)
    else
      some c
  else if event.trbType = commandCompletionEvent then
    -- the index is an `int` here
    let index := ((event.trbPtr - (c.rings .command).ring.physicalAddr) / 0x10#64).setWidth 32
    some (c.finish .command (index.signExtend 64) event)
  else
    some c

def Completes (c : Controller) (event : RawTrb) (addr : BitVec 64) : RingId → Prop
  | .command => event.trbType = commandCompletionEvent ∧ event.trbPtr = addr
  | .port p => event.trbType = transferEvent ∧ event.endpointId = 1#5 ∧
      event.slotId = c.slotId p ∧ event.trbPtr = addr

def Registered (c : Controller) (p : Nat) : Prop :=
  c.portBySlotId (c.slotId p) = some p

end Controller

/-! ## Calls and deliveries -/

/-- A call in its loop: its ring, the key it waits under, and the number of its last block among all
blocks of that ring. -/
structure Waiting where
  ring : RingId
  index : BitVec 64
  last : Nat

inductive Phase
  | idle
  | waiting (call : Waiting)
  | handling (call : Waiting)

/-- A call that has returned: how many events of its ring had been delivered by then, and the event
that `send_command` returns. -/
structure Return where
  ring : RingId
  last : Nat
  seen : Nat
  event : Option RawTrb

structure Exchange where
  controller : Controller
  phase : Phase
  issued : RingId → List (BitVec 64)
  delivered : RingId → List RawTrb
  returns : List Return
  failed : Bool

inductive ExchangeOp
  | sendCommand (trb : RawTrb)
  | sendControl (p : Nat) (packet : Packet) (write : Bool) (dma : Option (BitVec 64))
  | look
  | event (id : RingId) (event : RawTrb)
  | leave

namespace Exchange

def start (c : Controller) : Exchange where
  controller := c
  phase := .idle
  issued := fun _ => []
  delivered := fun _ => []
  returns := []
  failed := false

def place (s : Exchange) (id : RingId) (indices : List Nat) (ring : TlbRing) : Exchange :=
  let addrs := indices.map fun i => ring.physicalAddr + BitVec.ofNat 64 (16 * i)
  { s with
    controller := { s.controller with
      rings := Function.update s.controller.rings id { s.controller.rings id with ring := ring } }
    issued := Function.update s.issued id (s.issued id ++ addrs) }

def returnFrom (s : Exchange) (call : Waiting) : Exchange :=
  let entry := (s.controller.rings call.ring).events call.index
  let event := if call.ring = .command then some entry.trb else none
  { s with
    phase := .idle
    returns := s.returns ++ [⟨call.ring, call.last, (s.delivered call.ring).length, event⟩] }

def deliver (s : Exchange) (id : RingId) (event : RawTrb) (c : Controller) : Exchange :=
  { s with
    controller := c
    delivered := Function.update s.delivered id (s.delivered id ++ [event]) }

/-- Calls start one after the other; a call that waits looks at its entry and enters `handle_irq` if
it is not finished, which handles any number of events. -/
def step (s : Exchange) : ExchangeOp → Option Exchange
  | .sendCommand trb =>
    match s.phase with
    | .idle =>
      let (index, ring) := (s.controller.rings .command).ring.enqueueTrb trb false
      some { s.place .command [index] ring with
        phase := .waiting ⟨.command, BitVec.ofNat 64 index, (s.issued .command).length⟩ }
    | _ => none
  | .sendControl p packet write dma =>
    match s.phase with
    | .idle =>
      let (indices, ring, index) :=
        (s.controller.rings (.port p)).ring.sendControl packet write dma
      let t := s.place (.port p) indices ring
      let last := (t.issued (.port p)).length - 1
      match index with
      | some index => some { t with phase := .waiting ⟨.port p, index, last⟩ }
      | none => some { t with
          returns := s.returns ++ [⟨.port p, last, (s.delivered (.port p)).length, none⟩]
          failed := true }
    | _ => none
  | .look =>
    match s.phase with
    | .waiting call =>
      if ((s.controller.rings call.ring).events call.index).finished then
        some (s.returnFrom call)
      else
        some { s with phase := .handling call }
    | _ => none
  | .event id event =>
    match s.phase with
    | .handling _ =>
      match s.controller.handleEvent event with
      | none => none
      | some c => some (s.deliver id event c)
    | _ => none
  | .leave =>
    match s.phase with
    | .handling call => some { s with phase := .waiting call }
    | _ => none

/-- Transfers go to ports that are set up, and each block is completed once, in the order of its ring.
Between rings there is no order. -/
def ok (s : Exchange) : ExchangeOp → Prop
  | .sendControl p _ _ _ => s.controller.Registered p
  | .event id event => ∃ addr, (s.issued id)[(s.delivered id).length]? = some addr ∧
      s.controller.Completes event addr id
  | _ => True

/-- A call is right if it returned after the event of its last block was delivered; what
`send_command` returns is that event. -/
def ReturnRight (s : Exchange) (r : Return) : Prop :=
  r.last < r.seen ∧ ∀ event, r.event = some event → (s.delivered r.ring)[r.last]? = some event

def Right (s : Exchange) : Prop :=
  ∀ r ∈ s.returns, s.ReturnRight r

/-- At most `commands` commands were sent, at most `blocks` blocks were put on the ring of each port,
and no allocation has failed unless `failures` says so. -/
structure Within (commands blocks : Nat) (failures : Bool) (s : Exchange) : Prop where
  commands : (s.issued .command).length ≤ commands
  blocks : ∀ p, (s.issued (.port p)).length ≤ blocks
  failures : s.failed = true → failures = true

end Exchange

end SigmaOS.Drivers.Xhci
