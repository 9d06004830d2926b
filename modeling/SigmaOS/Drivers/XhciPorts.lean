import SigmaOS.Lib.Run
import Mathlib.Data.List.Perm.Basic

/-!
# Drivers.XhciPorts — USB 2 and USB 3 ports of an xHCI controller

Every connector has a USB 2 port and, often, a USB 3 port.  `setup_port_protocols` numbers the
ports of each revision and pairs the ports of equal number; `init_ports` resets the USB 3 ports
first and then the USB 2 ports that are active.  The flags are written by the resets themselves,
through the number of the other port.

`Flags.result` is not in the source: it keeps what `reset_port` answered for each port.  A port of
the model that is not below `n_ports` is never reached, as the protocols cover those below it only.
-/

namespace SigmaOS.Drivers.XhciPorts

open Function List
open Lib

/-! ## Setting up the ports -/

/-- `supported_protocol`, without the minor revision and the slot type. -/
structure Protocol where
  major : Nat
  portOffset : Nat
  portCount : Nat
  deriving DecidableEq, Repr

def Protocol.ports (p : Protocol) : List Nat :=
  (List.range p.portCount).map (p.portOffset + ·)

/-- What `setup_port_protocols` writes to a `port`; `protocol` is an index of `supported_protocols`,
and `none` the null pointer. -/
structure Port where
  protocol : Option Nat := none
  offset : Nat := 0
  hasPair : Bool := false
  otherPortNum : Nat := 0
  deriving DecidableEq, Repr

def majorOf (protocols : List Protocol) (p : Port) : Nat :=
  ((p.protocol.bind (protocols[·]?)).map Protocol.major).getD 0

/-- The ports that the loop over the protocols of one revision reaches, with their protocols. -/
def visits (major : Nat) (protocols : List Protocol) : List (Nat × Nat) :=
  protocols.zipIdx.flatMap fun pk =>
    if pk.1.major = major then pk.1.ports.map (·, pk.2) else []

/-- The body of that loop; `next` is `usb2_i` or `usb3_i`. -/
def assign : List (Nat × Nat) → Nat → (Nat → Port) → Nat → Port
  | [], _, ports => ports
  | (i, k) :: rest, next, ports =>
    assign rest (next + 1)
      (Function.update ports i { ports i with protocol := some k, offset := next })

def assigned (protocols : List Protocol) : Nat → Port :=
  assign (visits 3 protocols) 0 (assign (visits 2 protocols) 0 fun _ => {})

def Mates (ports : Nat → Port) (i j : Nat) : Prop :=
  (ports i).offset = (ports j).offset ∧ (ports i).protocol ≠ (ports j).protocol

instance (ports : Nat → Port) (i j : Nat) : Decidable (Mates ports i j) :=
  inferInstanceAs (Decidable (_ ∧ _))

def join (ports : Nat → Port) (ij : Nat × Nat) : Nat → Port :=
  if Mates ports ij.1 ij.2 then
    let ports := Function.update ports ij.1
      { ports ij.1 with hasPair := true, otherPortNum := ij.2 }
    Function.update ports ij.2 { ports ij.2 with hasPair := true, otherPortNum := ij.1 }
  else ports

structure Controller where
  protocols : List Protocol
  ports : Nat → Port

def Controller.major (c : Controller) (i : Nat) : Nat :=
  majorOf c.protocols (c.ports i)

def setupPortProtocols (n : Nat) (protocols : List Protocol) : Controller where
  protocols := protocols
  ports :=
    ((List.range n).flatMap fun i => (List.range n).map (i, ·)).foldl join (assigned protocols)

/-! ## Resets -/

/-- What the reads of a port's control register show while it is reset: its power at first and after
the attempt to switch it on, the reset change bit before the timeout, and the enabled bit. -/
structure Regs where
  powered : Bool
  powersUp : Bool
  resetChange : Bool
  enabled : Bool
  deriving DecidableEq, Repr

def Regs.hasPower (r : Regs) : Bool := r.powered || r.powersUp

def Regs.successful (r : Regs) : Bool := r.resetChange && r.enabled

structure Flags where
  active : Nat → Bool
  result : Nat → Option Bool

def firstFlags (n : Nat) (c : Controller) : Flags where
  active i := decide (i < n) && (c.major i == 3 || (c.major i == 2 && !(c.ports i).hasPair))
  result _ := none

def Flags.setActive (f : Flags) (i : Nat) (b : Bool) : Flags :=
  { f with active := Function.update f.active i b }

section

variable (c : Controller) (regs : Nat → Regs)

def resetPort (i : Nat) (f : Flags) : Bool × Flags :=
  let p := c.ports i
  let major := c.major i
  if !(regs i).hasPower then (false, f)
  else if major ≠ 3 ∧ major ≠ 2 then (false, f)
  else
    let successful := (regs i).successful
    let f :=
      if successful ∧ major = 2 then
        let f := f.setActive i true
        if p.hasPair then f.setActive p.otherPortNum false else f
      else f
    -- the other port is activated whether there is one or not
    let f :=
      if ¬ successful ∧ major = 3 then (f.setActive i false).setActive p.otherPortNum true else f
    (successful, f)

/-- A round of the loop of `init_ports` over the ports of one revision. -/
def tryReset (major : Nat) (f : Flags) (i : Nat) : Flags :=
  if f.active i ∧ c.major i = major then
    let (successful, f) := resetPort c regs i f
    { f.setActive i successful with result := Function.update f.result i (some successful) }
  else f

end

def initPorts (n : Nat) (protocols : List Protocol) (regs : Nat → Regs) : Flags :=
  let c := setupPortProtocols n protocols
  let f := (List.range n).foldl (tryReset c regs 3) (firstFlags n c)
  (List.range n).foldl (tryReset c regs 2) f

/-! ## Ranks -/

/-- The ports of one revision, in the order of the protocols. -/
def usbPorts (major : Nat) (protocols : List Protocol) : List Nat :=
  (protocols.filter fun p => p.major = major).flatMap Protocol.ports

/-- One of the ports is a USB 2 port, the other one the USB 3 port at the same place. -/
def EqualRank (protocols : List Protocol) (i j : Nat) : Prop :=
  ∃ r : Nat, ((usbPorts 2 protocols)[r]? = some i ∧ (usbPorts 3 protocols)[r]? = some j) ∨
    ((usbPorts 3 protocols)[r]? = some i ∧ (usbPorts 2 protocols)[r]? = some j)

def Controller.Paired (c : Controller) (i j : Nat) : Prop :=
  (c.ports i).hasPair = true ∧ (c.ports i).otherPortNum = j

/-- The protocols are of revision 2 or 3, and each port below `n` is in one of them, once. -/
structure Covers (n : Nat) (protocols : List Protocol) : Prop where
  majors : ∀ p ∈ protocols, p.major = 2 ∨ p.major = 3
  once : (protocols.flatMap Protocol.ports).Perm (List.range n)

lemma EqualRank.symm {protocols : List Protocol} {i j : Nat} (h : EqualRank protocols i j) :
    EqualRank protocols j i := by
  rcases h with ⟨r, ⟨hi, hj⟩ | ⟨hi, hj⟩⟩
  · exact ⟨r, .inr ⟨hj, hi⟩⟩
  · exact ⟨r, .inl ⟨hj, hi⟩⟩

section

variable {n : Nat} {protocols : List Protocol} (h : Covers n protocols)
include h

lemma Covers.perm : (usbPorts 2 protocols ++ usbPorts 3 protocols).Perm (List.range n) := by
  have hthree : protocols.filter (fun p => p.major = 3) =
      protocols.filter fun p => !decide (p.major = 2) := by
    refine filter_congr fun p hp => ?_
    rcases h.majors p hp with hm | hm <;> simp [hm]
  rw [usbPorts, usbPorts, hthree, ← flatMap_append]
  exact (List.Perm.flatMap_right _ (filter_append_perm _ protocols)).trans h.once

lemma Covers.nodup : (usbPorts 2 protocols ++ usbPorts 3 protocols).Nodup :=
  h.perm.nodup_iff.2 nodup_range

lemma Covers.rank {i : Nat} (hi : i < n) :
    ∃ m r : Nat, (m = 2 ∨ m = 3) ∧ (usbPorts m protocols)[r]? = some i := by
  rcases mem_append.1 (h.perm.mem_iff.2 (mem_range.2 hi)) with hmem | hmem
  · rcases mem_iff_getElem?.1 hmem with ⟨r, hr⟩
    exact ⟨2, r, .inl rfl, hr⟩
  · rcases mem_iff_getElem?.1 hmem with ⟨r, hr⟩
    exact ⟨3, r, .inr rfl, hr⟩

lemma Covers.lt_of_rank {m r i : Nat} (hm : m = 2 ∨ m = 3)
    (hr : (usbPorts m protocols)[r]? = some i) : i < n := by
  have hmem := mem_of_getElem? hr
  refine mem_range.1 (h.perm.mem_iff.1 (mem_append.2 ?_))
  rcases hm with rfl | rfl
  · exact .inl hmem
  · exact .inr hmem

end

/-! ## The numbers of the ports -/

lemma assign_of_not_mem {i : Nat} :
    ∀ {l : List (Nat × Nat)} {next : Nat} {ports : Nat → Port}, i ∉ l.map Prod.fst →
      assign l next ports i = ports i := by
  intro l
  induction l with
  | nil => intro next ports _; rfl
  | cons x l ih =>
    intro next ports hi
    rw [map_cons, mem_cons, not_or] at hi
    rw [assign, ih hi.2, update_of_ne hi.1]

/-- The port at position `r` of the loop gets the number `next + r`. -/
lemma assign_of_get {i k : Nat} :
    ∀ {l : List (Nat × Nat)} {r next : Nat} {ports : Nat → Port}, (l.map Prod.fst).Nodup →
      l[r]? = some (i, k) →
      assign l next ports i = { ports i with protocol := some k, offset := next + r } := by
  intro l
  induction l with
  | nil => intro r next ports _ hr; simp at hr
  | cons x l ih =>
    intro r next ports hnd hr
    rw [map_cons, nodup_cons] at hnd
    cases r with
    | zero =>
      obtain rfl : x = (i, k) := by simpa using hr
      rw [assign, assign_of_not_mem hnd.1, update_self, Nat.add_zero]
    | succ r =>
      have hr' : l[r]? = some (i, k) := by simpa using hr
      have hne : i ≠ x.1 := by
        rintro rfl
        exact hnd.1 (mem_map.2 ⟨_, mem_of_getElem? hr', rfl⟩)
      rw [assign, ih hnd.2 hr', update_of_ne hne, Nat.add_right_comm, Nat.add_assoc]

/-- Assigning protocols and offsets touches no pairing. -/
lemma assign_unpaired {i : Nat} :
    ∀ {l : List (Nat × Nat)} {next : Nat} {ports : Nat → Port},
      (assign l next ports i).hasPair = (ports i).hasPair ∧
        (assign l next ports i).otherPortNum = (ports i).otherPortNum := by
  intro l
  induction l with
  | nil => exact ⟨rfl, rfl⟩
  | cons x l ih =>
    intro next ports
    rw [assign, ih.1, ih.2]
    by_cases hi : i = x.1
    · subst hi
      rw [update_self]
      exact ⟨rfl, rfl⟩
    · rw [update_of_ne hi]
      exact ⟨rfl, rfl⟩

lemma visits_fst (m : Nat) (protocols : List Protocol) :
    (visits m protocols).map Prod.fst = usbPorts m protocols := by
  suffices hfrom : ∀ k, ((protocols.zipIdx k).flatMap fun pk =>
      if pk.1.major = m then pk.1.ports.map (·, pk.2) else []).map Prod.fst =
        usbPorts m protocols from hfrom 0
  induction protocols with
  | nil => intro k; rfl
  | cons p protocols ih =>
    intro k
    rw [zipIdx_cons, flatMap_cons, map_append, ih]
    by_cases hm : p.major = m
    · simp [usbPorts, hm, comp_def]
    · simp [usbPorts, hm]

lemma major_of_mem_visits {m i k : Nat} {protocols : List Protocol}
    (h : (i, k) ∈ visits m protocols) : (protocols[k]?).map Protocol.major = some m := by
  rcases mem_flatMap.1 h with ⟨⟨p, k'⟩, hp, hik⟩
  have hget := mem_zipIdx_iff_getElem?.1 hp
  by_cases hm : p.major = m
  · rw [if_pos hm] at hik
    rcases mem_map.1 hik with ⟨j, -, hjk⟩
    cases hjk
    rw [hget, Option.map_some, hm]
  · rw [if_neg hm] at hik
    cases hik

section

variable {n : Nat} {protocols : List Protocol} (h : Covers n protocols)
include h

/-- The ports of each revision are numbered by their rank. -/
lemma assigned_of_rank {m r i : Nat} (hm : m = 2 ∨ m = 3)
    (hr : (usbPorts m protocols)[r]? = some i) :
    (assigned protocols i).offset = r ∧ majorOf protocols (assigned protocols i) = m := by
  have hnd := nodup_append.1 h.nodup
  rw [← visits_fst, List.getElem?_map] at hr
  obtain ⟨⟨i', k⟩, hik, rfl⟩ := Option.map_eq_some_iff.1 hr
  have hmajor := major_of_mem_visits (mem_of_getElem? hik)
  suffices heq : assigned protocols i' = { protocol := some k, offset := r } by
    simp [heq, majorOf, hmajor]
  have hmem : i' ∈ usbPorts m protocols := by
    rw [← visits_fst]
    exact mem_map.2 ⟨_, mem_of_getElem? hik, rfl⟩
  rcases hm with rfl | rfl
  · have hnot : i' ∉ (visits 3 protocols).map Prod.fst := by
      rw [visits_fst]
      exact fun hthree => hnd.2.2 _ hmem _ hthree rfl
    rw [assigned, assign_of_not_mem hnot,
      assign_of_get (by rw [visits_fst]; exact hnd.1) hik, Nat.zero_add]
  · have hnot : i' ∉ (visits 2 protocols).map Prod.fst := by
      rw [visits_fst]
      exact fun htwo => hnd.2.2 _ htwo _ hmem rfl
    rw [assigned, assign_of_get (by rw [visits_fst]; exact hnd.2.1) hik, assign_of_not_mem hnot,
      Nat.zero_add]

/-- Ports are mates exactly if they have the same rank in the two revisions. -/
lemma mates_iff (i j : Nat) :
    (i < n ∧ j < n ∧ Mates (assigned protocols) i j) ↔ EqualRank protocols i j := by
  constructor
  · rintro ⟨hi, hj, hoff, hprot⟩
    rcases h.rank hi with ⟨mi, ri, hmi, hri⟩
    rcases h.rank hj with ⟨mj, rj, hmj, hrj⟩
    have hr : ri = rj := by
      rw [← (assigned_of_rank h hmi hri).1, ← (assigned_of_rank h hmj hrj).1, hoff]
    subst hr
    -- two ports of one revision and one rank are the same port
    have hne : mi ≠ mj := by
      rintro rfl
      have hij : i = j := Option.some.inj (hri.symm.trans hrj)
      exact hprot (by rw [hij])
    rcases hmi with rfl | rfl <;> rcases hmj with rfl | rfl
    · exact absurd rfl hne
    · exact ⟨ri, .inl ⟨hri, hrj⟩⟩
    · exact ⟨ri, .inr ⟨hri, hrj⟩⟩
    · exact absurd rfl hne
  · suffices hone : ∀ {m m' r i j : Nat}, (m = 2 ∨ m = 3) → (m' = 2 ∨ m' = 3) → m ≠ m' →
        (usbPorts m protocols)[r]? = some i → (usbPorts m' protocols)[r]? = some j →
          i < n ∧ j < n ∧ Mates (assigned protocols) i j by
      rintro ⟨r, ⟨hi, hj⟩ | ⟨hi, hj⟩⟩
      · exact hone (.inl rfl) (.inr rfl) (by decide) hi hj
      · exact hone (.inr rfl) (.inl rfl) (by decide) hi hj
    intro m m' r i j hm hm' hne hi hj
    rcases assigned_of_rank h hm hi with ⟨hoi, hmi⟩
    rcases assigned_of_rank h hm' hj with ⟨hoj, hmj⟩
    refine ⟨h.lt_of_rank hm hi, h.lt_of_rank hm' hj, hoi.trans hoj.symm, fun hp => hne ?_⟩
    rw [← hmi, ← hmj, majorOf, majorOf, hp]

lemma rank_unique {m m' r r' i : Nat} (hm : m = 2 ∨ m = 3) (hm' : m' = 2 ∨ m' = 3)
    (hr : (usbPorts m protocols)[r]? = some i) (hr' : (usbPorts m' protocols)[r']? = some i) :
    m = m' ∧ r = r' := by
  rcases assigned_of_rank h hm hr with ⟨hoff, hmajor⟩
  rcases assigned_of_rank h hm' hr' with ⟨hoff', hmajor'⟩
  exact ⟨hmajor.symm.trans hmajor', hoff.symm.trans hoff'⟩

lemma EqualRank.unique {i j j' : Nat} (hj : EqualRank protocols i j)
    (hj' : EqualRank protocols i j') : j = j' := by
  rcases hj with ⟨r, ⟨hi, hj⟩ | ⟨hi, hj⟩⟩ <;> rcases hj' with ⟨r', ⟨hi', hj'⟩ | ⟨hi', hj'⟩⟩
  · obtain ⟨-, rfl⟩ := rank_unique h (.inl rfl) (.inl rfl) hi hi'
    exact Option.some.inj (hj.symm.trans hj')
  · exact absurd (rank_unique h (.inl rfl) (.inr rfl) hi hi').1 (by decide)
  · exact absurd (rank_unique h (.inr rfl) (.inl rfl) hi hi').1 (by decide)
  · obtain ⟨-, rfl⟩ := rank_unique h (.inr rfl) (.inr rfl) hi hi'
    exact Option.some.inj (hj.symm.trans hj')

end

/-! ## The pairs -/

/-- What the pairing loop keeps, starting from `first`: it writes the pairs only, and it joins mates. -/
structure Joins (n : Nat) (first ports : Nat → Port) : Prop where
  same : ∀ k, (ports k).offset = (first k).offset ∧ (ports k).protocol = (first k).protocol
  alone : ∀ k, (ports k).hasPair = false → (ports k).otherPortNum = 0
  mates : ∀ k, (ports k).hasPair = true →
    k < n ∧ (ports k).otherPortNum < n ∧ Mates first k (ports k).otherPortNum

lemma Mates.symm {ports : Nat → Port} {i j : Nat} (h : Mates ports i j) : Mates ports j i :=
  ⟨h.1.symm, h.2.symm⟩

section

variable {n : Nat} {first ports : Nat → Port}

lemma Joins.mates_iff (h : Joins n first ports) (i j : Nat) :
    Mates ports i j ↔ Mates first i j := by
  rw [Mates, Mates, (h.same i).1, (h.same i).2, (h.same j).1, (h.same j).2]

/-- Writing one port's mate keeps the pairing sound. -/
lemma Joins.write (h : Joins n first ports) {i j : Nat} (hi : i < n) (hj : j < n)
    (hm : Mates first i j) :
    Joins n first (update ports i { ports i with hasPair := true, otherPortNum := j }) := by
  refine ⟨fun k => ?_, fun k hpair => ?_, fun k hpair => ?_⟩ <;> by_cases hk : k = i
  · subst hk
    simpa using h.same k
  · simpa [update_of_ne hk] using h.same k
  · simp [hk] at hpair
  · rw [update_of_ne hk] at hpair ⊢
    exact h.alone k hpair
  · subst hk
    simpa using ⟨hi, hj, hm⟩
  · rw [update_of_ne hk] at hpair ⊢
    exact h.mates k hpair

lemma hasPair_write {i j k : Nat} (hk : (ports k).hasPair = true) :
    (update ports i { ports i with hasPair := true, otherPortNum := j } k).hasPair =
      true := by
  by_cases hki : k = i
  · subst hki
    simp
  · rw [update_of_ne hki]
    exact hk

/-- One round of the pairing loop pairs mates and undoes no pair. -/
lemma join_spec (h : Joins n first ports) {ij : Nat × Nat} (hi : ij.1 < n) (hj : ij.2 < n) :
    Joins n first (join ports ij) ∧
      (Mates first ij.1 ij.2 → (join ports ij ij.1).hasPair = true) ∧
      ∀ k, (ports k).hasPair = true → (join ports ij k).hasPair = true := by
  by_cases hm : Mates ports ij.1 ij.2
  · have hm' := (h.mates_iff _ _).1 hm
    rw [join, if_pos hm]
    refine ⟨(h.write hi hj hm').write hj hi hm'.symm, fun _ => ?_, fun k hk => ?_⟩
    · exact hasPair_write (by simp)
    · exact hasPair_write (hasPair_write hk)
  · rw [join, if_neg hm]
    exact ⟨h, fun hm' => absurd ((h.mates_iff _ _).2 hm') hm, fun _ hk => hk⟩

end

/-- The loop that pairs joins mates only, and every port that has a mate. -/
lemma setup_joins (n : Nat) (protocols : List Protocol) :
    Joins n (assigned protocols) (setupPortProtocols n protocols).ports ∧
      ∀ i j, i < n → j < n → Mates (assigned protocols) i j →
        ((setupPortProtocols n protocols).ports i).hasPair = true := by
  have hfirst : Joins n (assigned protocols) (assigned protocols) := by
    refine ⟨fun k => ⟨rfl, rfl⟩, fun k _ => ?_, fun k hk => ?_⟩
    · rw [assigned, assign_unpaired.2, assign_unpaired.2]
    · rw [assigned, assign_unpaired.1, assign_unpaired.1] at hk
      cases hk
  have hmem : ∀ {ij : Nat × Nat},
      ij ∈ ((List.range n).flatMap fun i => (List.range n).map (i, ·)) ↔ ij.1 < n ∧ ij.2 < n := by
    simp
  rcases (foldl_chain join _ (assigned protocols)).collects
      (I := Joins n (assigned protocols))
      (Q := fun (ij : Nat × Nat) ports =>
        Mates (assigned protocols) ij.1 ij.2 → (ports ij.1).hasPair = true)
      (by
        rintro ij hij ports _ hI rfl
        rcases join_spec hI (hmem.1 hij).1 (hmem.1 hij).2 with ⟨hI', hown, hkeep⟩
        exact ⟨hI', hown, fun b hb hm => hkeep _ (hb hm)⟩) hfirst with ⟨hI, hall, -⟩
  exact ⟨hI, fun i j hi hj => hall (i, j) (hmem.2 ⟨hi, hj⟩)⟩

section

variable {n : Nat} {protocols : List Protocol} (h : Covers n protocols)
include h

lemma paired_iff (i j : Nat) :
    (setupPortProtocols n protocols).Paired i j ↔ EqualRank protocols i j := by
  rcases setup_joins n protocols with ⟨hI, hall⟩
  constructor
  · rintro ⟨hpair, rfl⟩
    exact (mates_iff h _ _).1 (hI.mates i hpair)
  · intro hrank
    rcases (mates_iff h i j).2 hrank with ⟨hi, hj, hm⟩
    have hpair := hall i j hi hj hm
    exact ⟨hpair, EqualRank.unique h ((mates_iff h _ _).1 (hI.mates i hpair)) hrank⟩

lemma setup_of_rank {m r i : Nat} (hm : m = 2 ∨ m = 3)
    (hr : (usbPorts m protocols)[r]? = some i) : (setupPortProtocols n protocols).major i = m := by
  rw [Controller.major, majorOf, ((setup_joins n protocols).1.same i).2]
  exact (assigned_of_rank h hm hr).2

end

/-! ## The loops -/

/-- What the pairing is for the loops. -/
structure Wired (n : Nat) (c : Controller) : Prop where
  symm : ∀ {i j}, c.Paired i j → c.Paired j i
  majors : ∀ {i j}, c.Paired i j →
    c.major i = 2 ∧ c.major j = 3 ∨ c.major i = 3 ∧ c.major j = 2
  lt : ∀ {i j}, c.Paired i j → i < n
  alone : ∀ i, (c.ports i).hasPair = false → (c.ports i).otherPortNum = 0

lemma wired_setup {n : Nat} {protocols : List Protocol} (h : Covers n protocols) :
    Wired n (setupPortProtocols n protocols) where
  symm hp := (paired_iff h _ _).2 ((paired_iff h _ _).1 hp).symm
  majors hp := by
    rcases (paired_iff h _ _).1 hp with ⟨r, ⟨hi, hj⟩ | ⟨hi, hj⟩⟩
    · exact .inl ⟨setup_of_rank h (.inl rfl) hi, setup_of_rank h (.inr rfl) hj⟩
    · exact .inr ⟨setup_of_rank h (.inr rfl) hi, setup_of_rank h (.inl rfl) hj⟩
  lt hp := ((setup_joins n protocols).1.mates _ hp.1).1
  alone := (setup_joins n protocols).1.alone

def Regs.ok (r : Regs) : Bool := r.hasPower && r.successful

/-- The port gets power, and its reset does not succeed. -/
def Regs.fails (r : Regs) : Bool := r.hasPower && !r.successful

/-- A USB 3 port without a pair below `k`, other than port 0, fails: it makes port 0 active. -/
def Stray (k : Nat) (c : Controller) (regs : Nat → Regs) : Prop :=
  ∃ i < k, i ≠ 0 ∧ c.major i = 3 ∧ (c.ports i).hasPair = false ∧ (regs i).fails = true

/-- After the USB 3 ports below `k`. -/
structure Three (c : Controller) (regs : Nat → Regs) (n k : Nat) (f : Flags) : Prop where
  result : ∀ i, f.result i = if i < k ∧ c.major i = 3 then some (regs i).ok else none
  three : ∀ i < n, c.major i = 3 →
    (f.active i = true ↔ k ≤ i ∨ (regs i).ok = true ∨ i = 0 ∧ Stray k c regs)
  two : ∀ i < n, c.major i = 2 →
    (f.active i = true ↔ (c.ports i).hasPair = false ∨
      (∃ j < k, c.Paired j i ∧ (regs j).fails = true) ∨ i = 0 ∧ Stray k c regs)

/-- After the USB 2 ports below `k`, from the flags `g` on. -/
structure Two (c : Controller) (regs : Nat → Regs) (k : Nat) (g f : Flags) : Prop where
  result : ∀ i, f.result i =
    if i < k ∧ c.major i = 2 ∧ g.active i = true then some (regs i).ok else g.result i
  two : ∀ i, c.major i = 2 →
    (f.active i = true ↔ g.active i = true ∧ (i < k → (regs i).ok = true))
  three : ∀ i, c.major i = 3 → (f.active i = true ↔ g.active i = true ∧
    ¬ ∃ j < k, c.Paired j i ∧ g.active j = true ∧ (regs j).ok = true)

section

variable {n k : Nat} {c : Controller} {regs : Nat → Regs} {f g : Flags}

/-- A round for a USB 3 port: where it fails, the flag goes to the port it has for the other one. -/
lemma tryReset_three (regs : Nat → Regs) (hactive : f.active k = true) (hmajor : c.major k = 3) :
    (tryReset c regs 3 f k).result = update f.result k (some (regs k).ok) ∧
      (tryReset c regs 3 f k).active k = (regs k).ok ∧
      ∀ i, i ≠ k → ((tryReset c regs 3 f k).active i = true ↔
        f.active i = true ∨ (regs k).fails = true ∧ i = (c.ports k).otherPortNum) := by
  rw [tryReset, if_pos ⟨hactive, hmajor⟩, resetPort]
  cases hpower : (regs k).hasPower with
  | false => simp +contextual [Regs.ok, Regs.fails, hpower, Flags.setActive]
  | true =>
    cases hok : (regs k).successful with
    | true => simp +contextual [Regs.ok, Regs.fails, hpower, hok, hmajor, Flags.setActive]
    | false =>
      simp +contextual [Regs.ok, Regs.fails, hpower, hok, hmajor, Flags.setActive, update_apply, or_comm]

/-- A round for a USB 2 port: where it succeeds, the other port of its pair loses the flag. -/
lemma tryReset_two (regs : Nat → Regs) (hactive : f.active k = true) (hmajor : c.major k = 2) :
    (tryReset c regs 2 f k).result = update f.result k (some (regs k).ok) ∧
      (tryReset c regs 2 f k).active k = (regs k).ok ∧
      ∀ i, i ≠ k → ((tryReset c regs 2 f k).active i = true ↔
        f.active i = true ∧ ¬ (c.Paired k i ∧ (regs k).ok = true)) := by
  rw [tryReset, if_pos ⟨hactive, hmajor⟩, resetPort]
  cases hpower : (regs k).hasPower with
  | false => simp +contextual [Regs.ok, hpower, Flags.setActive]
  | true =>
    cases hok : (regs k).successful with
    | false => simp +contextual [Regs.ok, hok, hmajor, Flags.setActive]
    | true =>
      cases hpair : (c.ports k).hasPair with
      | false =>
        simp +contextual [Regs.ok, hpower, hok, hmajor, Flags.setActive, hpair, Controller.Paired]
      | true =>
        have hpaired : ∀ i, c.Paired k i ↔ i = (c.ports k).otherPortNum := fun i => by
          rw [Controller.Paired, hpair, eq_self_iff_true, true_and, eq_comm]
        simp +contextual [Regs.ok, hpower, hok, hmajor, Flags.setActive, hpaired, update_apply, and_comm]

lemma stray_succ : Stray (k + 1) c regs ↔ Stray k c regs ∨
    k ≠ 0 ∧ c.major k = 3 ∧ (c.ports k).hasPair = false ∧ (regs k).fails = true :=
  Nat.exists_lt_succ_right

variable (hw : Wired n c)
include hw

/-- The port that the flag goes to is the other one of the pair, or port 0. -/
lemma handed_iff {i : Nat} (hik : i ≠ k) (hmajor : c.major k = 3) :
    (regs k).fails = true ∧ i = (c.ports k).otherPortNum ↔ c.Paired k i ∧ (regs k).fails = true ∨
      i = 0 ∧ k ≠ 0 ∧ c.major k = 3 ∧ (c.ports k).hasPair = false ∧ (regs k).fails = true := by
  cases hpair : (c.ports k).hasPair with
  | true =>
    rw [Controller.Paired, hpair, and_comm, eq_comm]
    simp
  | false =>
    have hne : i = 0 → k ≠ 0 := by
      rintro rfl
      exact Ne.symm hik
    simp only [Controller.Paired, hpair, hw.alone k hpair, hmajor]
    tauto

/-- One round of the loop over the USB 3 ports. -/
lemma Three.succ (hk : k < n) (h : Three c regs n k f) :
    Three c regs n (k + 1) (tryReset c regs 3 f k) := by
  by_cases hmajor : c.major k = 3
  · have hactive : f.active k = true := (h.three k hk hmajor).2 (.inl (Nat.le_refl k))
    rcases tryReset_three regs hactive hmajor with ⟨hresult, hown, hothers⟩
    have hzero : ¬ (k = 0 ∧ Stray (k + 1) c regs) := by
      rintro ⟨rfl, i, hi, hne, _⟩
      omega
    refine ⟨fun i => ?_, fun i hi hthree => ?_, fun i hi htwo => ?_⟩
    · rw [hresult]
      by_cases hik : i = k
      · simp [hik, hmajor]
      · rw [update_of_ne hik, h.result]
        exact if_congr (and_congr_left fun _ => by omega) rfl rfl
    · by_cases hik : i = k
      · subst hik
        rw [hown, or_iff_left hzero, or_iff_right (by omega)]
      · have hnot : ¬ c.Paired k i := fun hp => by
          have hmajors := hw.majors hp
          omega
        rw [hothers i hik, h.three i hi hthree, handed_iff hw hik hmajor, stray_succ]
        have hle : k ≤ i ↔ k + 1 ≤ i := by omega
        tauto
    · have hik : i ≠ k := fun hik => by
        subst hik
        omega
      rw [hothers i hik, h.two i hi htwo, handed_iff hw hik hmajor, stray_succ,
        Nat.exists_lt_succ_right, and_or_left, or_assoc, or_or_or_comm]
  · rw [tryReset, if_neg fun hboth => hmajor hboth.2]
    have hstray : Stray (k + 1) c regs ↔ Stray k c regs := by simp [stray_succ, hmajor]
    refine ⟨fun i => ?_, fun i hi hthree => ?_, fun i hi htwo => ?_⟩
    · rw [h.result]
      refine if_congr (and_congr_left fun hthree => ?_) rfl rfl
      have hne : i ≠ k := fun hik => hmajor (hik ▸ hthree)
      omega
    · have hne : i ≠ k := fun hik => hmajor (hik ▸ hthree)
      rw [h.three i hi hthree, hstray]
      exact or_congr_left (by omega)
    · have hnot : ¬ (c.Paired k i ∧ (regs k).fails = true) := by
        rintro ⟨hp, _⟩
        have hmajors := hw.majors hp
        omega
      rw [h.two i hi htwo, hstray, Nat.exists_lt_succ_right, or_iff_left hnot]

/-- One round of the loop over the USB 2 ports. -/
lemma Two.succ (h : Two c regs k g f) : Two c regs (k + 1) g (tryReset c regs 2 f k) := by
  by_cases hturn : f.active k = true ∧ c.major k = 2
  · rcases hturn with ⟨hactive, hmajor⟩
    rcases tryReset_two regs hactive hmajor with ⟨hresult, hown, hothers⟩
    have hg : g.active k = true := ((h.two k hmajor).1 hactive).1
    refine ⟨fun i => ?_, fun i htwo => ?_, fun i hthree => ?_⟩
    · rw [hresult]
      by_cases hik : i = k
      · simp [hik, hmajor, hg]
      · rw [update_of_ne hik, h.result]
        exact if_congr (and_congr_left fun _ => by omega) rfl rfl
    · by_cases hik : i = k
      · subst hik
        rw [hown]
        exact ⟨fun hok => ⟨hg, fun _ => hok⟩, fun hok => hok.2 (by omega)⟩
      · have hnot : ¬ c.Paired k i := fun hp => by
          have hmajors := hw.majors hp
          omega
        rw [hothers i hik, h.two i htwo]
        have hlt : i < k ↔ i < k + 1 := by omega
        tauto
    · have hik : i ≠ k := fun hik => by
        subst hik
        omega
      rw [hothers i hik, h.three i hthree, Nat.exists_lt_succ_right, not_or, and_assoc]
      simp [hg]
  · rw [tryReset, if_neg hturn]
    have hoff : c.major k = 2 → ¬ g.active k = true := by
      intro hmajor hg
      exact hturn ⟨(h.two k hmajor).2 ⟨hg, fun hlt => absurd hlt (Nat.lt_irrefl k)⟩, hmajor⟩
    refine ⟨fun i => ?_, fun i htwo => ?_, fun i hthree => ?_⟩
    · rw [h.result]
      refine if_congr (and_congr_left fun hi => ?_) rfl rfl
      have hne : i ≠ k := fun hik => hoff (hik ▸ hi.1) (hik ▸ hi.2)
      omega
    · rw [h.two i htwo]
      refine and_congr_right fun hi => ?_
      have hne : i ≠ k := fun hik => hoff (hik ▸ htwo) (hik ▸ hi)
      have hlt : i < k ↔ i < k + 1 := by omega
      rw [hlt]
    · have hnot : ¬ (c.Paired k i ∧ g.active k = true ∧ (regs k).ok = true) := by
        rintro ⟨hp, hg, _⟩
        have hmajors := hw.majors hp
        exact hoff (by omega) hg
      rw [h.three i hthree, Nat.exists_lt_succ_right, or_iff_left hnot]

/-- The state of the USB 3 resets after the loop over the ports. -/
lemma three_loop : Three c regs n n ((List.range n).foldl (tryReset c regs 3) (firstFlags n c)) := by
  suffices hprefix : ∀ k ≤ n,
      Three c regs n k ((List.range k).foldl (tryReset c regs 3) (firstFlags n c)) from
    hprefix n (Nat.le_refl n)
  intro k hk
  induction k with
  | zero =>
    have hnone : ¬ Stray 0 c regs := by simp [Stray]
    refine ⟨fun i => by simp [firstFlags], fun i hi hthree => ?_, fun i hi htwo => ?_⟩
    · simp [firstFlags, hi, hthree]
    · simp [firstFlags, hi, htwo, hnone]
  | succ k ih =>
    rw [List.range_succ, foldl_append]
    exact (ih (by omega)).succ hw hk

lemma two_loop (k : Nat) : Two c regs k g ((List.range k).foldl (tryReset c regs 2) g) := by
  induction k with
  | zero => exact ⟨fun i => by simp, fun i _ => by simp, fun i _ => by simp⟩
  | succ k ih =>
    rw [List.range_succ, foldl_append]
    exact ih.succ hw

/-- The flags between the two loops. -/
def afterThree (n : Nat) (c : Controller) (regs : Nat → Regs) : Flags :=
  (List.range n).foldl (tryReset c regs 3) (firstFlags n c)

/-- A USB 2 port of a pair is tried when its USB 3 port fails, and port 0 also after a stray. -/
lemma afterThree_two {i j : Nat} (hp : c.Paired i j) (hmajor : c.major i = 3) :
    (afterThree n c regs).active j = true ↔ (regs i).fails = true ∨ j = 0 ∧ Stray n c regs := by
  have htwo : c.major j = 2 := by
    have hmajors := hw.majors hp
    omega
  have hfails : (∃ k < n, c.Paired k j ∧ (regs k).fails = true) ↔ (regs i).fails = true := by
    constructor
    · rintro ⟨k, _, hk, hfail⟩
      rwa [(hw.symm hk).2.symm.trans (hw.symm hp).2] at hfail
    · exact fun hfail => ⟨i, hw.lt hp, hp, hfail⟩
  rw [afterThree, (three_loop hw).two j (hw.lt (hw.symm hp)) htwo, hfails, (hw.symm hp).1]
  simp

end

/-- The USB 3 port of every pair gets power, or its USB 2 port is port 0 and is made active by a stray.
And where there is a stray and port 0 is a USB 3 port, it was reset, or the USB 2 port of its pair is
tried and was reset. -/
structure HandsOver (n : Nat) (c : Controller) (regs : Nat → Regs) : Prop where
  powered : ∀ i j, c.Paired i j → c.major i = 3 →
    (regs i).hasPower = true ∨ j = 0 ∧ Stray n c regs
  zero : c.major 0 = 3 → Stray n c regs → (regs 0).ok = true ∨
    (regs 0).hasPower = true ∧ ∃ j, c.Paired 0 j ∧ (regs j).ok = true

lemma Regs.fails_or_ok {r : Regs} : (r.fails = true ∨ r.ok = true) ↔ r.hasPower = true := by
  cases hpower : r.hasPower with
  | false => simp [Regs.fails, Regs.ok, hpower]
  | true => cases hok : r.successful <;> simp [Regs.fails, Regs.ok, hpower, hok]

section

variable {n i j : Nat} {c : Controller} {regs : Nat → Regs} {f : Flags} (hw : Wired n c)
  (htwo : Two c regs n (afterThree n c regs) f)

include hw htwo

lemma Two.result_three (hi : i < n) (hmajor : c.major i = 3) : f.result i = some (regs i).ok := by
  rw [htwo.result, if_neg (by omega), afterThree, (three_loop hw).result, if_pos ⟨hi, hmajor⟩]

lemma Two.result_two (hi : i < n) (hmajor : c.major i = 2) :
    f.result i = if (afterThree n c regs).active i = true then some (regs i).ok else none := by
  have hnone : (afterThree n c regs).result i = none := by
    rw [afterThree, (three_loop hw).result, if_neg (by omega)]
  rw [htwo.result, hnone]
  simp [hi, hmajor]

/-- The USB 2 port of a pair, if it is active, has taken the flag away from the other. -/
lemma Two.not_both (hp : c.Paired i j) : ¬ (f.active i = true ∧ f.active j = true) := by
  have hoff : ∀ {i j}, c.Paired i j → c.major i = 2 →
      ¬ (f.active i = true ∧ f.active j = true) := by
    rintro i j hp hmajor ⟨hi, hj⟩
    have hmajors := hw.majors hp
    rcases (htwo.two i hmajor).1 hi with ⟨hg, hok⟩
    exact ((htwo.three j (by omega)).1 hj).2 ⟨i, hw.lt hp, hp, hg, hok (hw.lt hp)⟩
  rcases hw.majors hp with ⟨hmajor, _⟩ | ⟨_, hmajor⟩
  · exact hoff hp hmajor
  · exact fun hboth => hoff (hw.symm hp) hmajor ⟨hboth.2, hboth.1⟩

/-- Without power and without a stray the USB 2 port of the pair is never tried; and a port 0 made
active by a stray keeps the flag unless its pair takes it. -/
lemma Two.handsOver (hreset : ∀ i < n, f.active i = true → f.result i = some true)
    (hretried : ∀ i j, c.Paired i j → c.major i = 3 → f.result i ≠ some true →
      f.result j ≠ none) : HandsOver n c regs := by
  refine ⟨fun i j hp hmajor => ?_, fun hmajor hstray => ?_⟩
  · by_contra hno
    rw [not_or] at hno
    have hfail : ¬ ((regs i).fails = true ∨ (regs i).ok = true) := fun hpower =>
      hno.1 (Regs.fails_or_ok.1 hpower)
    rw [not_or] at hfail
    have hnone : f.result j = none := by
      have hmajors := hw.majors hp
      rw [htwo.result_two hw (hw.lt (hw.symm hp)) (by omega), if_neg]
      rw [afterThree_two hw hp hmajor]
      exact not_or.2 ⟨hfail.1, hno.2⟩
    refine hretried i j hp hmajor ?_ hnone
    rw [htwo.result_three hw (hw.lt hp) hmajor]
    simpa using hfail.2
  · have hzero : 0 < n := by
      rcases hstray with ⟨i, hi, _⟩
      omega
    by_contra hno
    rw [not_or] at hno
    have hactive : f.active 0 = true := by
      refine (htwo.three 0 hmajor).2 ⟨?_, ?_⟩
      · exact ((three_loop hw).three 0 hzero hmajor).2 (.inr (.inr ⟨rfl, hstray⟩))
      · rintro ⟨j, hj, hp, hg, hok⟩
        rw [afterThree_two hw (hw.symm hp) hmajor] at hg
        have hmajors := hw.majors hp
        rcases hg with hfail | ⟨rfl, _⟩
        · exact hno.2 ⟨Regs.fails_or_ok.1 (.inl hfail), j, hw.symm hp, hok⟩
        · omega
    have htrue := hreset 0 hzero hactive
    rw [htwo.result_three hw hzero hmajor] at htrue
    exact hno.1 (Option.some.inj htrue)

lemma HandsOver.reset (hhands : HandsOver n c regs) (hmajor : c.major i = 2 ∨ c.major i = 3)
    (hi : i < n) (hactive : f.active i = true) : f.result i = some true := by
  rcases hmajor with hmajor | hmajor
  · rcases (htwo.two i hmajor).1 hactive with ⟨hg, hok⟩
    rw [htwo.result_two hw hi hmajor, if_pos hg, hok hi]
  · rw [htwo.result_three hw hi hmajor]
    rcases (htwo.three i hmajor).1 hactive with ⟨hg, htaken⟩
    rcases ((three_loop hw).three i hi hmajor).1 hg with hle | hok | ⟨rfl, hstray⟩
    · omega
    · rw [hok]
    · rcases hhands.zero hmajor hstray with hok | ⟨hpower, j, hp, hok⟩
      · rw [hok]
      · -- the USB 2 port of the pair was tried, or port 0 was reset itself
        rcases Regs.fails_or_ok.2 hpower with hfail | hok'
        · exact absurd ⟨j, hw.lt (hw.symm hp), hw.symm hp,
            (afterThree_two hw hp hmajor).2 (.inl hfail), hok⟩ htaken
        · rw [hok']

lemma HandsOver.retried (hhands : HandsOver n c regs) (hp : c.Paired i j) (hmajor : c.major i = 3)
    (hfailed : f.result i ≠ some true) : f.result j ≠ none := by
  have hmajors := hw.majors hp
  have hnot : ¬ (regs i).ok = true := by
    rw [htwo.result_three hw (hw.lt hp) hmajor] at hfailed
    simpa using hfailed
  have hg : (afterThree n c regs).active j = true := by
    rw [afterThree_two hw hp hmajor]
    refine (hhands.powered i j hp hmajor).imp_left fun hpower => ?_
    exact (Regs.fails_or_ok.2 hpower).resolve_right hnot
  rw [htwo.result_two hw (hw.lt (hw.symm hp)) (by omega), if_pos hg]
  exact Option.some_ne_none _

end

/-- For every list of protocols that covers the ports and all outcomes of the resets: the pairs are the
ports of equal rank and never active together; and every active port was reset and every USB 2 port
whose USB 3 port failed was tried, exactly if the ports hand over. -/
theorem ports_right_iff {n : Nat} {protocols : List Protocol} (regs : Nat → Regs)
    (h : Covers n protocols) :
    (∀ i j, (setupPortProtocols n protocols).Paired i j ↔ EqualRank protocols i j) ∧
      (∀ i j, (setupPortProtocols n protocols).Paired i j →
        (setupPortProtocols n protocols).Paired j i ∧
          ¬ ((initPorts n protocols regs).active i = true ∧
            (initPorts n protocols regs).active j = true)) ∧
      ((∀ i < n, (initPorts n protocols regs).active i = true →
          (initPorts n protocols regs).result i = some true) ∧
        (∀ i j, (setupPortProtocols n protocols).Paired i j →
          (setupPortProtocols n protocols).major i = 3 →
          (initPorts n protocols regs).result i ≠ some true →
          (initPorts n protocols regs).result j ≠ none) ↔
        HandsOver n (setupPortProtocols n protocols) regs) := by
  have hw := wired_setup h
  have hmajors : ∀ i < n, (setupPortProtocols n protocols).major i = 2 ∨
      (setupPortProtocols n protocols).major i = 3 := by
    intro i hi
    rcases h.rank hi with ⟨m, r, hm, hr⟩
    rw [setup_of_rank h hm hr]
    exact hm
  have htwo : Two _ regs n (afterThree n _ regs) (initPorts n protocols regs) := two_loop hw n
  refine ⟨paired_iff h, fun i j hp => ⟨hw.symm hp, htwo.not_both hw hp⟩, ?_, fun hhands => ?_⟩
  · exact fun hright => htwo.handsOver hw hright.1 hright.2
  · exact ⟨fun i hi => hhands.reset hw htwo (hmajors i hi) hi,
      fun i j hp hmajor => hhands.retried hw htwo hp hmajor⟩

/-- Port 0 fails, a USB 3 port, and so does port 1, which has no pair and makes port 0 active again; but
the USB 2 port of port 0 is tried and reset. -/
theorem ports_right_iff_retried :
    Covers 3 [⟨3, 0, 2⟩, ⟨2, 2, 1⟩] ∧
      (initPorts 3 [⟨3, 0, 2⟩, ⟨2, 2, 1⟩] fun i => ⟨true, true, i == 2, true⟩).result 0 =
        some false ∧
      ∀ i < 3,
        (initPorts 3 [⟨3, 0, 2⟩, ⟨2, 2, 1⟩] fun i => ⟨true, true, i == 2, true⟩).active i = true →
          (initPorts 3 [⟨3, 0, 2⟩, ⟨2, 2, 1⟩] fun i => ⟨true, true, i == 2, true⟩).result i =
            some true := by
  have hcovers : Covers 3 [⟨3, 0, 2⟩, ⟨2, 2, 1⟩] := ⟨by decide, by decide⟩
  refine ⟨hcovers, by decide, ((ports_right_iff _ hcovers).2.2.2 ⟨?_, ?_⟩).1⟩
  · exact fun i j _ _ => .inl rfl
  · exact fun _ _ => .inr ⟨rfl, 2, (paired_iff hcovers 0 2).2 ⟨0, .inr ⟨rfl, rfl⟩⟩, by decide⟩

/-- A USB 3 port that stays without power does not hand over to the USB 2 port of its pair.  And a
USB 3 port without a pair hands over to port 0: with two of them that both fail, port 0 is active. -/
theorem handover_fails :
    (Covers 2 [⟨2, 0, 1⟩, ⟨3, 1, 1⟩] ∧
      (setupPortProtocols 2 [⟨2, 0, 1⟩, ⟨3, 1, 1⟩]).Paired 0 1 ∧
      (initPorts 2 [⟨2, 0, 1⟩, ⟨3, 1, 1⟩] fun i => ⟨i == 0, false, true, true⟩).result 1 =
        some false ∧
      (initPorts 2 [⟨2, 0, 1⟩, ⟨3, 1, 1⟩] fun i => ⟨i == 0, false, true, true⟩).result 0 = none) ∧
    Covers 2 [⟨3, 0, 2⟩] ∧
      (initPorts 2 [⟨3, 0, 2⟩] fun _ => ⟨true, true, false, false⟩).result 0 = some false ∧
      (initPorts 2 [⟨3, 0, 2⟩] fun _ => ⟨true, true, false, false⟩).active 0 = true := by
  refine ⟨⟨⟨by decide, by decide⟩, ⟨by decide, by decide⟩, by decide, by decide⟩,
    ⟨by decide, by decide⟩, by decide, by decide⟩

end SigmaOS.Drivers.XhciPorts
