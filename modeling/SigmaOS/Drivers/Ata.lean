import Mathlib.Logic.Function.Basic

/-!
# Drivers.Ata — the drive that an ATA controller has selected

`select_drive` writes the drive-select register only if the value is not the one in `cur_selected`,
a static variable that all controllers share.  `init_drive` writes the register without it, and a
`select_drive` that reports a failure at the end has written the register, too.  The answers of the
devices are lists: a call takes them one by one, and waits for ever when there is none left.  A
register has the value that was last written to it.
-/

namespace SigmaOS.Drivers.Ata

/-! ## The code -/

inductive Event
  | written (controller : Nat) (value : BitVec 8)
  | returned (controller : Nat) (value register : BitVec 8) (skipped : Bool)
  deriving DecidableEq

structure Driver where
  curSelected : BitVec 8
  registers : Nat × Nat → BitVec 8
  /-- The newest event first. -/
  log : List Event

/-- Code that takes answers of the devices, and may wait for one. -/
abbrev Io := OptionT (StateM (Driver × List (BitVec 8)))

def driver : Io Driver :=
  OptionT.mk fun s => (some s.1, s)

def update (f : Driver → Driver) : Io Unit :=
  OptionT.mk fun s => (some (), f s.1, s.2)

def answers {β : Type} (f : List (BitVec 8) → Option (β × List (BitVec 8))) : Io β :=
  OptionT.mk fun s =>
    match f s.2 with
    | none => (none, s)
    | some (b, rest) => (some b, s.1, rest)

/-- `read_cmd` and `read_control`. -/
def readPort : Io (BitVec 8) :=
  answers fun
    | [] => none
    | answer :: rest => some (answer, rest)

def features := 1
def sectorCount := 2
def lbaLow := 3
def lbaMid := 4
def lbaHigh := 5
def driveSelect := 6
def command := 7

def writeCmd (controller reg : Nat) (value : BitVec 8) : Io Unit :=
  update fun d => { d with registers := Function.update d.registers (controller, reg) value }

def writeSelect (controller : Nat) (value : BitVec 8) : Io Unit :=
  update fun d => { d with
    registers := Function.update d.registers (controller, driveSelect) value
    log := .written controller value :: d.log }

def returns (controller : Nat) (value : BitVec 8) (skipped : Bool) : Io Unit :=
  update fun d => { d with
    log := .returned controller value (d.registers (controller, driveSelect)) skipped :: d.log }

def nsWait : Io Unit := do
  let _ ← readPort
  let _ ← readPort
  let _ ← readPort
  let _ ← readPort

def readUntil (p : BitVec 8 → Bool) : Io (BitVec 8) :=
  answers loop
where
  loop : List (BitVec 8) → Option (BitVec 8 × List (BitVec 8))
    | [] => none
    | status :: rest => if p status then some (status, rest) else loop rest

/-- `wait_busy_clear`; its callers ignore the result. -/
def waitBusyClear : Io Bool := do
  let status ← readUntil fun status => !status.getLsbD 7 || status.getLsbD 0 || status.getLsbD 5
  return !status.getLsbD 7

/-- The drive-select register for a drive, an addressing mode and the low four bits of a nibble. -/
def selectValue (slave lba : Bool) (nibble : BitVec 8) : BitVec 8 :=
  nibble &&& 0x0F#8 ||| (if slave then 0x10#8 else 0#8) ||| 0x20#8 |||
    (if lba then 0x40#8 else 0#8) ||| 0x80#8

def readBusy : Io Bool := do
  let status ← readPort
  return status.getLsbD 7 || status.getLsbD 3

def selectDrive (controller : Nat) (slave lba : Bool) (nibble : BitVec 8) : Io Unit := do
  let value := selectValue slave lba nibble
  if value = (← driver).curSelected then returns controller value true
  else if ← readBusy then return ()
  else do
    writeSelect controller value
    nsWait
    let _ ← readPort
    if ← readBusy then return ()
    else do
      update fun d => { d with curSelected := value }
      returns controller value false

/-- `identify_16` and `identify_32` differ in how they read the 512 bytes. -/
def identify (controller : Nat) (slave : Bool) (words width : Nat) : Io (List (BitVec 8)) := do
  selectDrive controller slave false 0#8
  let _ ← waitBusyClear
  writeCmd controller features 0#8
  writeCmd controller sectorCount 0#8
  writeCmd controller lbaLow 0#8
  writeCmd controller lbaMid 0#8
  writeCmd controller lbaHigh 0#8
  writeCmd controller command 0xEC#8
  nsWait
  let _ ← readUntil (·.getLsbD 3)
  answers fun reads =>
    if words * width ≤ reads.length then some (reads.take (words * width), reads.drop (words * width))
    else none

def identify16 (controller : Nat) (slave : Bool) : Io (List (BitVec 8)) :=
  identify controller slave 256 2

def identify32 (controller : Nat) (slave : Bool) : Io (List (BitVec 8)) :=
  identify controller slave 128 4

def checkIdentity (data : List (BitVec 8)) : Bool :=
  if data.getD 510 0#8 = 0xA5#8 then
    decide (-(data.take 511).foldl (· + ·) 0#8 = data.getD 511 0#8)
  else decide (data.getD 510 0#8 = 0#8)

structure Disk where
  slave : Bool
  existing : Bool
  lba : Bool
  lba48 : Bool
  pio32 : Bool
  id : BitVec 8 × BitVec 8
  identity : List (BitVec 8)

/-- The disk record after the call. -/
def initDrive (controller : Nat) (device : Disk) : Io Disk := do
  writeSelect controller (if device.slave then 0x10#8 else 0#8)
  nsWait
  let _ ← waitBusyClear
  let error ← readPort
  if error.getLsbD 7 then return device
  else do
    let id := (← readPort, ← readPort)
    if id ≠ (0#8, 0#8) then return { device with id }
    else do
      let identity ← identify16 controller device.slave
      if checkIdentity identity = false then return { device with id, identity }
      else do
        let identity32 ← identify32 controller device.slave
        return { device with
          id, identity
          pio32 := device.pio32 || decide (identity = identity32)
          lba := true
          lba48 := (identity.getD 167 0#8).getLsbD 2 && (identity.getD 173 0#8).getLsbD 2
          existing := true }

inductive Call
  | initDrive (controller : Nat) (device : Disk)
  | identify16 (controller : Nat) (slave : Bool)
  | identify32 (controller : Nat) (slave : Bool)
  | selectDrive (controller : Nat) (slave lba : Bool) (nibble : BitVec 8)

def Call.code : Call → Io Unit
  | .initDrive controller device => discard (Ata.initDrive controller device)
  | .identify16 controller slave => discard (Ata.identify16 controller slave)
  | .identify32 controller slave => discard (Ata.identify32 controller slave)
  | .selectDrive controller slave lba nibble => Ata.selectDrive controller slave lba nibble

/-- One call after the other, each with the answers of the devices, up to the first that waits. -/
def run (d : Driver) : List (Call × List (BitVec 8)) → Driver
  | [] => d
  | (c, reads) :: calls =>
    match c.code.run (d, reads) with
    | (none, s) => s.1
    | (some _, s) => run s.1 calls

def start (initial : Nat → BitVec 8) : Driver :=
  ⟨0#8, fun place => initial place.1, []⟩

/-! ## Histories -/

/-- Where `select_drive` returned without a failure, the register had the value for the request. -/
def RegistersRight (log : List Event) : Prop :=
  ∀ controller value register skipped,
    Event.returned controller value register skipped ∈ log → register = value

/-- The controller of the `select_drive` that has set `cur_selected`. -/
def setter : List Event → Option Nat
  | [] => none
  | .returned controller _ _ false :: _ => some controller
  | .returned _ _ _ true :: log => setter log
  | .written .. :: log => setter log

/-- That controller, if neither `init_drive` nor a `select_drive` that failed has written its register
since. -/
def holder : List Event → Option Nat
  | [] => none
  | .returned controller _ _ false :: _ => some controller
  | .returned _ _ _ true :: log => holder log
  | .written controller _ :: log => if holder log = some controller then none else holder log

/-- At every call that skips the write, `who` is the controller it is made on. -/
def SkipsBy (who : List Event → Option Nat) : List Event → Prop
  | [] => True
  | .returned controller _ _ true :: log => who log = some controller ∧ SkipsBy who log
  | .returned _ _ _ false :: log => SkipsBy who log
  | .written .. :: log => SkipsBy who log

/-- A controller that still holds the selection is the one that set it. -/
lemma setter_of_holder {log : List Event} {controller : Nat} (h : holder log = some controller) :
    setter log = some controller := by
  induction log with
  | nil => cases h
  | cons event log ih =>
    cases event with
    | written c value =>
      rw [holder] at h
      split at h
      · cases h
      · exact ih h
    | returned c value register skipped =>
      cases skipped with
      | false => exact h
      | true => exact ih h

lemma registersRight_cons {log : List Event} {controller : Nat} {value register : BitVec 8}
    {skipped : Bool} :
    RegistersRight (.returned controller value register skipped :: log) ↔
      register = value ∧ RegistersRight log := by
  constructor
  · intro h
    exact ⟨h _ _ _ _ List.mem_cons_self, fun c v r s hin => h c v r s (List.mem_cons_of_mem _ hin)⟩
  · rintro ⟨heq, hrest⟩ c v r s hin
    rcases List.mem_cons.1 hin with hhead | htail
    · cases hhead
      exact heq
    · exact hrest c v r s htail

/-- `cur_selected` against the registers: the register of the controller that set it has its value
exactly as long as nothing else has written it. -/
structure Inv (d : Driver) : Prop where
  held : ∀ c, holder d.log = some c → d.registers (c, driveSelect) = d.curSelected
  lost : ∀ c, setter d.log = some c → holder d.log ≠ some c →
    d.registers (c, driveSelect) ≠ d.curSelected
  bit : ∀ c, setter d.log = some c → d.curSelected.getLsbD 7 = true
  right : RegistersRight d.log ∧ SkipsBy setter d.log ↔ SkipsBy holder d.log

/-- Code that leads from one property of the driver to another, whatever the devices answer and also
when it waits for ever. -/
def Leads {β : Type} (P Q : Driver → Prop) (code : Io β) : Prop :=
  ∀ d reads, P d → Q (code.run (d, reads)).2.1

namespace Leads

variable {β γ : Type} {P Q R : Driver → Prop}

lemma pure (h : ∀ d, P d → Q d) (b : β) : Leads P Q (Pure.pure b : Io β) :=
  fun d _ hd => h d hd

lemma update {f : Driver → Driver} (h : ∀ d, P d → Q (f d)) : Leads P Q (Ata.update f) :=
  fun d _ hd => h d hd

lemma answers (f : List (BitVec 8) → Option (β × List (BitVec 8))) : Leads P P (Ata.answers f) := by
  intro d reads h
  show P (match f reads with
    | none => (none, (d, reads))
    | some (b, rest) => (some b, d, rest)).2.1
  cases f reads with
  | none => exact h
  | some r => exact h

variable {code : Io β} {next : β → Io γ}

/-- The code may wait for ever before the rest starts, so what it leads to has to be enough. -/
lemma bind_of (hcode : Leads P Q code)
    (hnext : ∀ b, Leads Q R (next b)) (hstop : ∀ d, Q d → R d) : Leads P R (code >>= next) := by
  intro d reads h
  have hd := hcode d reads h
  rcases hrun : code.run (d, reads) with ⟨b, d', reads'⟩
  rw [hrun] at hd
  have hbind : (code >>= next).run (d, reads) =
      match b with
      | none => (none, d', reads')
      | some b => (next b).run (d', reads') := by
    rw [OptionT.run] at hrun
    simp only [OptionT.run, Bind.bind, OptionT.bind, OptionT.mk, StateT.bind, hrun]
    cases b with
    | none => rfl
    | some b => rfl
  cases b with
  | none => exact hbind ▸ hstop d' hd
  | some b => exact hbind ▸ hnext b d' reads' hd

lemma bind (hcode : Leads P P code)
    (hnext : ∀ b, Leads P P (next b)) : Leads P P (code >>= next) :=
  hcode.bind_of hnext fun _ h => h

/-- What follows a look at the driver may use what was seen. -/
lemma driver_bind {next : Driver → Io γ} (h : ∀ d, Leads (fun d' => P d' ∧ d' = d) R (next d)) :
    Leads P R (Ata.driver >>= next) :=
  fun d reads hd => h d d reads ⟨hd, rfl⟩

/-- An update never waits, so the rest need not start from something that is kept. -/
lemma update_bind {f : Driver → Driver} {next : Unit → Io γ} (h : ∀ d, P d → Q (f d))
    (hnext : Leads Q R (next ())) : Leads P R (Ata.update f >>= next) :=
  fun d reads hd => hnext (f d) reads (h d hd)

lemma readPort : Leads P P readPort :=
  answers _

lemma nsWait : Leads P P nsWait :=
  readPort.bind fun _ => readPort.bind fun _ => readPort.bind fun _ => readPort.bind fun _ =>
    pure (fun _ h => h) ()

lemma readBusy : Leads P P readBusy :=
  readPort.bind fun _ => pure (fun _ h => h) _

lemma waitBusyClear : Leads P P waitBusyClear :=
  (answers _).bind fun _ => pure (fun _ h => h) _

end Leads

section Inv

variable {d : Driver} {controller reg : Nat} {value : BitVec 8} {slave lba : Bool}
  {nibble : BitVec 8}

lemma Inv.writeCmd (hreg : reg ≠ driveSelect) : Leads Inv Inv (writeCmd controller reg value) := by
  refine Leads.update fun d h => ?_
  have hsame : ∀ c, Function.update d.registers (controller, reg) value (c, driveSelect) =
      d.registers (c, driveSelect) :=
    fun c => Function.update_of_ne (fun heq => hreg (Prod.mk.inj heq).2.symm) _ _
  refine ⟨fun c hc => (hsame c).trans (h.held c hc), fun c hc hlost => ?_, h.bit, h.right⟩
  exact fun heq => h.lost c hc hlost ((hsame c).symm.trans heq)

/-- A write of another value: the controller that set `cur_selected` has lost it if it is the one. -/
lemma Inv.writeSelect (h : Inv d) (hvalue : ∀ c, setter d.log = some c → value ≠ d.curSelected) :
    Inv { d with
      registers := Function.update d.registers (controller, driveSelect) value
      log := .written controller value :: d.log } := by
  have hother : ∀ c, c ≠ controller →
      Function.update d.registers (controller, driveSelect) value (c, driveSelect) =
        d.registers (c, driveSelect) :=
    fun c hc => Function.update_of_ne (fun heq => hc (Prod.mk.inj heq).1) _ _
  refine ⟨fun c hc => ?_, fun c hset hlost => ?_, h.bit, ?_⟩
  · simp only [holder] at hc
    split at hc
    · cases hc
    · next hne =>
      have hcc : c ≠ controller := fun heq => hne (heq ▸ hc)
      exact (hother c hcc).trans (h.held c hc)
  · by_cases hcc : c = controller
    · subst hcc
      simpa using hvalue c hset
    · refine fun heq => h.lost c hset (fun hheld => hlost ?_) ((hother c hcc).symm.trans heq)
      have hne : holder d.log ≠ some controller :=
        fun hcon => hcc (Option.some.inj (hheld.symm.trans hcon))
      simpa [holder, hne] using hheld
  · simpa [RegistersRight, SkipsBy] using h.right

/-- A skip is right, on the controller that set `cur_selected`, exactly if it still has it. -/
lemma Inv.skipped (h : Inv d) : Inv { d with
    log := .returned controller d.curSelected (d.registers (controller, driveSelect)) true ::
      d.log } := by
  refine ⟨h.held, h.lost, h.bit, ?_⟩
  rw [registersRight_cons, SkipsBy, SkipsBy, ← h.right]
  constructor
  · rintro ⟨⟨hregister, hright⟩, hset, hown⟩
    exact ⟨by_contra fun hlost => h.lost controller hset hlost hregister, hright, hown⟩
  · rintro ⟨hheld, hright, hown⟩
    exact ⟨⟨h.held controller hheld, hright⟩, setter_of_holder hheld, hown⟩

lemma Inv.selected (h : Inv d) (hbit : value.getLsbD 7 = true)
    (hregister : d.registers (controller, driveSelect) = value) : Inv { d with
      curSelected := value
      log := .returned controller value (d.registers (controller, driveSelect)) false :: d.log } := by
  refine ⟨fun c hc => ?_, fun c hset hlost => absurd hset hlost, fun _ _ => hbit, ?_⟩
  · rw [← Option.some.inj hc]
    exact hregister
  · rw [registersRight_cons, SkipsBy, SkipsBy, ← h.right]
    simp [hregister]

lemma selectValue_bit (slave lba : Bool) (nibble : BitVec 8) :
    (selectValue slave lba nibble).getLsbD 7 = true := by
  simp [selectValue]

/-- `select_drive` keeps `cur_selected` and the registers related. -/
lemma Inv.selectDrive : Leads Inv Inv (selectDrive controller slave lba nibble) := by
  have hbit := selectValue_bit slave lba nibble
  refine Leads.driver_bind fun seen => ?_
  split
  · next heq =>
    refine Leads.update fun d h => ?_
    have hcur : selectValue slave lba nibble = d.curSelected := heq.trans (by rw [h.2])
    rw [hcur]
    exact h.1.skipped
  · next hne =>
    refine Leads.readBusy.bind_of (fun busy => ?_) fun _ h => h.1
    split
    · exact Leads.pure (fun _ h => h.1) ()
    · -- from the write on, the register has the value
      refine Leads.bind_of (Q := fun d => Inv d ∧
        d.registers (controller, driveSelect) = selectValue slave lba nibble)
        (Leads.update fun d h => ⟨h.1.writeSelect fun _ _ => by rw [h.2]; exact hne, by simp⟩)
        (fun _ => ?_) fun _ h => h.1
      refine Leads.nsWait.bind_of (fun _ => ?_) fun _ h => h.1
      refine Leads.readPort.bind_of (fun _ => ?_) fun _ h => h.1
      refine Leads.readBusy.bind_of (fun busy => ?_) fun _ h => h.1
      split
      · exact Leads.pure (fun _ h => h.1) ()
      · exact Leads.update_bind (Q := fun d => ∃ old, Inv { d with curSelected := old } ∧
            d.curSelected = selectValue slave lba nibble ∧
            d.registers (controller, driveSelect) = selectValue slave lba nibble)
          (fun d h => ⟨d.curSelected, h.1, rfl, h.2⟩)
          (Leads.update fun d ⟨_, h, hcur, hregister⟩ => by
            have hnext := h.selected hbit hregister
            rwa [← hcur] at hnext ⊢)

lemma Inv.identify {words width : Nat} :
    Leads Inv Inv (identify controller slave words width) :=
  Inv.selectDrive.bind fun _ => Leads.waitBusyClear.bind fun _ =>
    (Inv.writeCmd (by decide)).bind fun _ => (Inv.writeCmd (by decide)).bind fun _ =>
    (Inv.writeCmd (by decide)).bind fun _ => (Inv.writeCmd (by decide)).bind fun _ =>
    (Inv.writeCmd (by decide)).bind fun _ => (Inv.writeCmd (by decide)).bind fun _ =>
    Leads.nsWait.bind fun _ => (Leads.answers _).bind fun _ => Leads.answers _

/-- So does `init_drive`, which writes the register behind its back. -/
lemma Inv.initDrive {device : Disk} : Leads Inv Inv (initDrive controller device) := by
  have hbit : (if device.slave then 0x10#8 else 0#8).getLsbD 7 = false := by
    cases device.slave with
    | false => rfl
    | true => rfl
  refine Leads.update_bind (Q := Inv) (fun d h => h.writeSelect fun c hset heq => ?_) ?_
  · -- bit 7 is set in every value of `select_drive`
    rw [heq, h.bit c hset] at hbit
    cases hbit
  refine Leads.nsWait.bind fun _ => Leads.waitBusyClear.bind fun _ => Leads.readPort.bind fun _ => ?_
  split
  · exact Leads.pure (fun _ h => h) _
  · refine Leads.readPort.bind fun _ => Leads.readPort.bind fun _ => ?_
    dsimp only
    split
    · exact Leads.pure (fun _ h => h) _
    · refine Inv.identify.bind fun _ => ?_
      split
      · exact Leads.pure (fun _ h => h) _
      · exact Inv.identify.bind fun _ => Leads.pure (fun _ h => h) _

lemma Inv.code (c : Call) : Leads Inv Inv c.code := by
  cases c with
  | initDrive controller device => exact Inv.initDrive.bind fun _ => Leads.pure (fun _ h => h) _
  | identify16 controller slave => exact Inv.identify.bind fun _ => Leads.pure (fun _ h => h) _
  | identify32 controller slave => exact Inv.identify.bind fun _ => Leads.pure (fun _ h => h) _
  | selectDrive controller slave lba nibble => exact Inv.selectDrive

/-- The invariant holds along any list of calls. -/
lemma Inv.run (h : Inv d) (calls : List (Call × List (BitVec 8))) : Inv (run d calls) := by
  induction calls generalizing d with
  | nil => exact h
  | cons call calls ih =>
    rcases call with ⟨c, reads⟩
    have hnext := Inv.code c d reads h
    rw [Ata.run]
    rcases hrun : c.code.run (d, reads) with ⟨b, s⟩
    rw [hrun] at hnext
    cases b with
    | none => exact hnext
    | some b => exact ih hnext

end Inv

/-- For any number of controllers, any calls on them, any answers of the devices and any first values of
the registers: where each skip is on the controller that set `cur_selected` and still has its value,
all registers are right, and where each is on the controller that set it, this is needed as well. -/
theorem select_right_iff (initial : Nat → BitVec 8) (calls : List (Call × List (BitVec 8))) :
    RegistersRight (run (start initial) calls).log ∧ SkipsBy setter (run (start initial) calls).log ↔
      SkipsBy holder (run (start initial) calls).log := by
  have hstart : Inv (start initial) :=
    ⟨by simp [start, holder], by simp [start, setter], by simp [start, setter],
      by simp [start, SkipsBy, RegistersRight]⟩
  exact (hstart.run calls).right

def emptyDisk : Disk :=
  ⟨false, false, false, false, false, (0#8, 0#8), []⟩

def selectTwice : List (Call × List (BitVec 8)) :=
  [(.selectDrive 0 false true 0#8, List.replicate 7 0#8), (.selectDrive 1 false true 0#8, [])]

/-- Between two requests for one drive, `init_drive` resets the controller and fails. -/
def selectAroundInit : List (Call × List (BitVec 8)) :=
  [(.selectDrive 0 false true 0#8, List.replicate 7 0#8),
    (.initDrive 0 emptyDisk, List.replicate 5 0#8 ++ [0x80#8]), (.selectDrive 0 false true 0#8, [])]

/-- The last `select_drive` returns at once, and its controller has nothing selected. -/
theorem select_skipped :
    ¬ RegistersRight (run (start fun _ => 0#8) selectTwice).log ∧
      ¬ RegistersRight (run (start fun _ => 0#8) selectAroundInit).log := by
  have htwo : Event.returned 1 0xE0#8 0#8 true ∈ (run (start fun _ => 0#8) selectTwice).log := by
    decide
  have hone : Event.returned 0 0xE0#8 0#8 true ∈ (run (start fun _ => 0#8) selectAroundInit).log := by
    decide
  exact ⟨fun h => absurd (h _ _ _ _ htwo) (by decide), fun h => absurd (h _ _ _ _ hone) (by decide)⟩

end SigmaOS.Drivers.Ata
