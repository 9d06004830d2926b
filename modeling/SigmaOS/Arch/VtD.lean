import Mathlib.Data.List.Nodup
import Mathlib.Logic.Function.Basic
import SigmaOS.Lib.Run
import SigmaOS.Types.Containers

/-!
# Arch.VtD — second-level contexts of the devices behind a remapping engine

`get_translation` finds the context of a device function through two hardware tables, the root
table by the bus and a context table by device and function, and makes what is missing.  `Inv` says
what holds between the tables, the map from source ids to contexts and the frames in use; from it
`contexts_isolated` follows: every function has its own context with its own root.

The free bit of the bitmap is never set, so every function gets the domain id 1; and both tables are
declared with 255 entries, one less than there are buses, and device and function pairs.

Frames are given by the bits above the page offset, and come from `supply`.  The root table is kept
apart from the memory of the other tables.  A panic, a failed assertion and an empty `supply` give
`none`.
-/

namespace SigmaOS.Arch.VtD

open Function List
open Lib SigmaOS.Types

abbrev Frame := BitVec 52

structure RootEntry where
  present : Bool
  contextTablePtr : Frame

structure ContextEntry where
  present : Bool
  translationType : BitVec 2
  secondLevelPtr : Frame
  addressWidth : BitVec 3
  domainId : BitVec 16

def ContextEntry.zero : ContextEntry :=
  { present := false, translationType := 0, secondLevelPtr := 0, addressWidth := 0, domainId := 0 }

/-- The length of the array `entries` in both tables. -/
def tableEntries : Nat := 0xFF

structure Context where
  root : Frame
  level : Nat
  deriving DecidableEq

/-- `dma_remapping_engine` with its `device_context_table`. -/
structure Engine where
  secondaryPageLevels : Nat
  nDomainIds : Nat
  domainIds : Bitmap
  root : Nat → RootEntry
  contextTables : Frame → Nat → ContextEntry
  slMap : HashMap (BitVec 16) Context
  supply : List Frame

namespace Engine

/-- The engine after its constructor, for the capability register `cap`. -/
def start (cap : BitVec 64) (levels : Nat) (supply : List Frame) : Engine :=
  { secondaryPageLevels := levels
    -- `1 << (2 * (cap & 0x7) + 4)`, and id 0 is reserved
    nDomainIds := 2 ^ (2 * (cap.toNat % 8) + 4)
    domainIds := (Bitmap.ofBits (2 ^ (2 * (cap.toNat % 8) + 4))).set 0
    root := fun _ => { present := false, contextTablePtr := 0 }
    contextTables := fun _ _ => ContextEntry.zero
    slMap := { list := [] }
    supply := supply }

/-- `source_id::raw`: three bits of the function, five of the device, eight of the bus. -/
def sourceId (bus dev func : BitVec 8) : BitVec 16 :=
  -- a bit field of the union keeps only its width
  BitVec.ofNat 16 (func.toNat % 8 + 8 * (dev.toNat % 32) + 256 * bus.toNat)

def contextIndex (sid : BitVec 16) : Nat :=
  sid.toNat % 256

def createTable (e : Engine) : Option (Frame × Engine) :=
  match e.supply with
  | [] => none
  | frame :: rest =>
    some (frame, { e with
      contextTables := Function.update e.contextTables frame fun _ => ContextEntry.zero
      supply := rest })

def linkTable (e : Engine) (bus : Nat) (frame : Frame) : Engine :=
  { e with root := Function.update e.root bus { present := true, contextTablePtr := frame } }

/-- The first half of `get_translation`: the context table of the bus. -/
def contextTableOf (e : Engine) (bus : Nat) : Option (Frame × Engine) :=
  if (e.root bus).present then
    some ((e.root bus).contextTablePtr, e)
  else
    -- the root entry is made present only here
    e.createTable.map fun (frame, e) => (frame, e.linkTable bus frame)

/-- The entry of a new context; the bit of the domain id is not set. -/
def newEntry (e : Engine) (frame : Frame) : ContextEntry :=
  { present := true
    translationType := 0
    secondLevelPtr := frame
    addressWidth := BitVec.ofNat 3 (e.secondaryPageLevels - 2)
    domainId := BitVec.ofNat 16 e.domainIds.getFreeBit }

def addContext (e : Engine) (table : Frame) (sid : BitVec 16) (frame : Frame) : Engine :=
  { e with
    slMap := e.slMap.pushBack sid { root := frame, level := e.secondaryPageLevels }
    contextTables := Function.update e.contextTables table
      (Function.update (e.contextTables table) (contextIndex sid) (e.newEntry frame)) }

/-- The second half: the entry of the context table is filled if it is not present. -/
def fillContextEntry (e : Engine) (table : Frame) (sid : BitVec 16) : Option Engine :=
  if (e.contextTables table (contextIndex sid)).present then
    -- the context was made by an earlier call
    some e
  else if e.domainIds.getFreeBit = 2 ^ 64 - 2 then
    -- `ASSERT(domain_id != ~1ull)`
    none
  else if 3 ≤ e.secondaryPageLevels ∧ e.secondaryPageLevels ≤ 5 then
    -- the constructor of the context takes its root table from the allocator
    e.createTable.map fun (frame, e) => e.addContext table sid frame
  else
    none

def getTranslation (e : Engine) (bus dev func : BitVec 8) : Option (Context × Engine) :=
  (e.contextTableOf bus.toNat).bind fun (table, e) =>
    (e.fillContextEntry table (sourceId bus dev func)).bind fun e =>
      (e.slMap.get? (sourceId bus dev func)).map fun context => (context, e)

end Engine

/-! ## Functions of devices -/

structure Bdf where
  bus : BitVec 8
  dev : BitVec 8
  func : BitVec 8
  dev_lt : dev.toNat < 32
  func_lt : func.toNat < 8

namespace Bdf

def sid (c : Bdf) : BitVec 16 :=
  Engine.sourceId c.bus c.dev c.func

variable {c c' : Bdf}

lemma toNat_sid (c : Bdf) : c.sid.toNat = c.func.toNat + 8 * c.dev.toNat + 256 * c.bus.toNat := by
  have hdev := c.dev_lt
  have hfunc := c.func_lt
  rw [sid, Engine.sourceId, BitVec.toNat_ofNat]
  omega

lemma contextIndex_sid (c : Bdf) :
    Engine.contextIndex c.sid = c.func.toNat + 8 * c.dev.toNat := by
  have hdev := c.dev_lt
  have hfunc := c.func_lt
  rw [Engine.contextIndex, toNat_sid]
  omega

/-- Distinct functions have distinct source ids. -/
lemma sid_injective (h : c.sid = c'.sid) : c = c' := by
  have hnat := congrArg BitVec.toNat h
  rw [toNat_sid, toNat_sid] at hnat
  have hdev := c.dev_lt
  have hfunc := c.func_lt
  have hdev' := c'.dev_lt
  have hfunc' := c'.func_lt
  -- the three fields are the digits of the number
  have hbus : c.bus = c'.bus := BitVec.eq_of_toNat_eq (by omega)
  have hdev_eq : c.dev = c'.dev := BitVec.eq_of_toNat_eq (by omega)
  have hfunc_eq : c.func = c'.func := BitVec.eq_of_toNat_eq (by omega)
  cases c
  cases c'
  simp_all

lemma eq_of_bus (hbus : c.bus = c'.bus)
    (hindex : Engine.contextIndex c.sid = Engine.contextIndex c'.sid) : c = c' := by
  apply sid_injective
  apply BitVec.eq_of_toNat_eq
  rw [contextIndex_sid, contextIndex_sid] at hindex
  rw [toNat_sid, toNat_sid, hbus, hindex]

end Bdf

namespace Engine

def entryOf (e : Engine) (c : Bdf) : ContextEntry :=
  e.contextTables (e.root c.bus.toNat).contextTablePtr (contextIndex c.sid)

def Filled (e : Engine) (c : Bdf) : Prop :=
  (e.root c.bus.toNat).present = true ∧ (e.entryOf c).present = true

/-- The frames in use are told apart and not handed out again; a function has an entry exactly if it
has a context, and the domain id is 1 in all of them. -/
structure Inv (e : Engine) : Prop where
  reserved : e.domainIds.getFreeBit = 1
  fresh : e.supply.Nodup
  tables_used : ∀ b, (e.root b).present = true → (e.root b).contextTablePtr ∉ e.supply
  tables_apart : ∀ b b', (e.root b).present = true → (e.root b').present = true →
    (e.root b).contextTablePtr = (e.root b').contextTablePtr → b = b'
  contexts_used : ∀ entry ∈ e.slMap.list, entry.2.root ∉ e.supply
  contexts_apart : (e.slMap.list.map fun entry => entry.2.root).Nodup
  mapped : ∀ c, e.Filled c ↔ ∃ x, e.slMap.get? c.sid = some x
  id_one : ∀ c, e.Filled c → (e.entryOf c).domainId = 1#16

variable {e e₁ : Engine} {frame table : Frame} {bus : Nat} {c : Bdf}

lemma Inv.start {cap : BitVec 64} {levels : Nat} {supply : List Frame} (h : supply.Nodup) :
    (start cap levels supply).Inv where
  reserved := Bitmap.getFreeBit_set_zero (Nat.two_pow_pos _)
  fresh := h
  tables_used := by
    intro b hb
    cases hb
  tables_apart := by
    intro b b' hb
    cases hb
  contexts_used := by
    intro entry hentry
    cases hentry
  contexts_apart := nodup_nil
  mapped := by
    intro c
    constructor
    · rintro ⟨hroot, _⟩
      cases hroot
    · rintro ⟨x, hx⟩
      cases hx
  id_one := by
    rintro c ⟨hroot, _⟩
    cases hroot

/-- What `create_table` does: the frame was not in use, and nothing else than its contents and the
supply changes. -/
structure Created (e : Engine) (frame : Frame) (e₁ : Engine) : Prop where
  inv : e₁.Inv
  not_free : frame ∉ e₁.supply
  not_table : ∀ b, (e₁.root b).present = true → (e₁.root b).contextTablePtr ≠ frame
  not_context : ∀ entry ∈ e₁.slMap.list, entry.2.root ≠ frame
  zeroed : e₁.contextTables frame = fun _ => ContextEntry.zero
  root : e₁.root = e.root
  slMap : e₁.slMap = e.slMap
  nDomainIds : e₁.nDomainIds = e.nDomainIds

/-- A new table is blank and nothing else changes. -/
lemma createTable_spec (h : e.Inv) (hcreate : e.createTable = some (frame, e₁)) :
    e.Created frame e₁ := by
  unfold createTable at hcreate
  cases hsupply : e.supply with
  | nil =>
    rw [hsupply] at hcreate
    cases hcreate
  | cons f rest =>
    rw [hsupply] at hcreate
    rcases Prod.mk.inj (Option.some.inj hcreate) with ⟨rfl, rfl⟩
    have hfresh := h.fresh
    rw [hsupply] at hfresh
    have hmem : f ∈ e.supply := by
      rw [hsupply]
      exact mem_cons_self
    have hrest : ∀ g, g ∉ e.supply → g ∉ rest := by
      intro g hg hmem
      rw [hsupply] at hg
      exact hg (mem_cons_of_mem _ hmem)
    -- a table in use is not the new frame, so it keeps its entries
    have htable : ∀ b, (e.root b).present = true → (e.root b).contextTablePtr ≠ f := by
      rintro b hb rfl
      exact h.tables_used b hb hmem
    have hentry : ∀ c : Bdf, (e.root c.bus.toNat).present = true →
        update e.contextTables f (fun _ => ContextEntry.zero)
          (e.root c.bus.toNat).contextTablePtr (contextIndex c.sid) = e.entryOf c := by
      intro c hc
      rw [update_of_ne (htable _ hc)]
      rfl
    -- so the same functions have an entry
    have hfilled : ∀ c : Bdf, ({ e with
        contextTables := update e.contextTables f fun _ => ContextEntry.zero
        supply := rest } : Engine).Filled c ↔ e.Filled c := by
      intro c
      constructor
      · rintro ⟨hroot, hpresent⟩
        exact ⟨hroot, by rw [← hentry c hroot]; exact hpresent⟩
      · rintro ⟨hroot, hpresent⟩
        refine ⟨hroot, ?_⟩
        rw [← hentry c hroot] at hpresent
        exact hpresent
    refine ⟨⟨h.reserved, (nodup_cons.1 hfresh).2, ?_, h.tables_apart, ?_, h.contexts_apart,
      ?_, ?_⟩, (nodup_cons.1 hfresh).1, htable, ?_, update_self .., rfl, rfl, rfl⟩
    · exact fun b hb => hrest _ (h.tables_used b hb)
    · exact fun entry hmem => hrest _ (h.contexts_used entry hmem)
    · intro c
      rw [hfilled c]
      exact h.mapped c
    · intro c hc
      rw [← h.id_one c ((hfilled c).1 hc), ← hentry c hc.1]
      rfl
    · rintro entry hmem' rfl
      exact h.contexts_used entry hmem' hmem

/-! ### Linking a table -/

lemma linkTable_root_self (e : Engine) (bus : Nat) (frame : Frame) :
    (e.linkTable bus frame).root bus = { present := true, contextTablePtr := frame } :=
  update_self ..

lemma linkTable_root_of_ne {b : Nat} (hb : b ≠ bus) : (e.linkTable bus frame).root b = e.root b :=
  update_of_ne hb ..

lemma linkTable_entryOf_of_ne (hc : c.bus.toNat ≠ bus) :
    (e.linkTable bus frame).entryOf c = e.entryOf c := by
  show e.contextTables ((e.linkTable bus frame).root c.bus.toNat).contextTablePtr _ = _
  rw [linkTable_root_of_ne hc]
  rfl

lemma Created.linkTable_filled (h : e.Created frame e₁)
    (habsent : ¬ (e.root bus).present = true) :
    (e₁.linkTable bus frame).Filled c ↔ e₁.Filled c := by
  by_cases hc : c.bus.toNat = bus
  · -- on this bus no entry is filled, neither before nor now
    subst hc
    apply iff_of_false
    · rintro ⟨_, hpresent⟩
      have hzero : (e₁.linkTable c.bus.toNat frame).entryOf c = ContextEntry.zero := by
        show e₁.contextTables ((e₁.linkTable _ frame).root c.bus.toNat).contextTablePtr _ = _
        rw [linkTable_root_self, h.zeroed]
      rw [hzero] at hpresent
      cases hpresent
    · rintro ⟨hroot, _⟩
      rw [h.root] at hroot
      exact habsent hroot
  · unfold Filled
    rw [linkTable_entryOf_of_ne hc, linkTable_root_of_ne hc]

/-- The table becomes the context table of a bus without one. -/
lemma Created.linkTable (h : e.Created frame e₁) (habsent : ¬ (e.root bus).present = true) :
    (e₁.linkTable bus frame).Inv where
  reserved := h.inv.reserved
  fresh := h.inv.fresh
  tables_used := by
    intro b hb
    -- the bus that gets its table now, or another one
    by_cases hbus : b = bus
    · rw [hbus, linkTable_root_self]
      exact h.not_free
    · rw [linkTable_root_of_ne hbus] at hb ⊢
      exact h.inv.tables_used b hb
  tables_apart := by
    intro b b' hb hb' heq
    by_cases hbus : b = bus
    · by_cases hbus' : b' = bus
      · rw [hbus, hbus']
      · rw [linkTable_root_of_ne hbus'] at hb' heq
        rw [hbus, linkTable_root_self] at heq
        exact absurd heq.symm (h.not_table b' hb')
    · rw [linkTable_root_of_ne hbus] at hb heq
      by_cases hbus' : b' = bus
      · rw [hbus', linkTable_root_self] at heq
        exact absurd heq (h.not_table b hb)
      · rw [linkTable_root_of_ne hbus'] at hb' heq
        exact h.inv.tables_apart b b' hb hb' heq
  contexts_used := h.inv.contexts_used
  contexts_apart := h.inv.contexts_apart
  mapped := by
    intro c
    rw [h.linkTable_filled habsent]
    exact h.inv.mapped c
  id_one := by
    intro c hc
    have hbefore := (h.linkTable_filled habsent).1 hc
    have hbus : c.bus.toNat ≠ bus := by
      rintro rfl
      rw [Filled, h.root] at hbefore
      exact habsent hbefore.1
    rw [linkTable_entryOf_of_ne hbus]
    exact h.inv.id_one c hbefore

/-- The bus has a context table afterwards, and the invariant is kept. -/
lemma contextTableOf_spec (h : e.Inv) (hof : e.contextTableOf bus = some (table, e₁)) :
    e₁.Inv ∧ (e₁.root bus).present = true ∧ (e₁.root bus).contextTablePtr = table ∧
      e₁.slMap = e.slMap ∧ e₁.nDomainIds = e.nDomainIds := by
  unfold contextTableOf at hof
  split at hof
  · rename_i hpresent
    rcases Prod.mk.inj (Option.some.inj hof) with ⟨rfl, rfl⟩
    exact ⟨h, hpresent, rfl, rfl, rfl⟩
  · rename_i habsent
    rcases Option.map_eq_some_iff.1 hof with ⟨⟨frame, e'⟩, hcreate, hpair⟩
    rcases Prod.mk.inj hpair with ⟨rfl, rfl⟩
    have hnew := createTable_spec h hcreate
    refine ⟨hnew.linkTable habsent, ?_, ?_, hnew.slMap, hnew.nDomainIds⟩
    · rw [linkTable_root_self]
    · rw [linkTable_root_self]

lemma addContext_entryOf_self (e : Engine) (c : Bdf) (frame : Frame) :
    (e.addContext (e.root c.bus.toNat).contextTablePtr c.sid frame).entryOf c =
      e.newEntry frame := by
  show update e.contextTables (e.root c.bus.toNat).contextTablePtr
    (update (e.contextTables (e.root c.bus.toNat).contextTablePtr) (contextIndex c.sid)
      (e.newEntry frame)) (e.root c.bus.toNat).contextTablePtr (contextIndex c.sid) = _
  rw [update_self, update_self]

section

variable (h : e.Inv) (hroot : (e.root c.bus.toNat).present = true)
include h hroot

lemma Inv.addContext_entryOf_of_ne {c' : Bdf} (hroot' : (e.root c'.bus.toNat).present = true)
    (hne : c' ≠ c) (frame : Frame) :
    (e.addContext (e.root c.bus.toNat).contextTablePtr c.sid frame).entryOf c' = e.entryOf c' := by
  show update e.contextTables (e.root c.bus.toNat).contextTablePtr _
    (e.root c'.bus.toNat).contextTablePtr _ = _
  -- in the same table the functions are on the same bus, and their indices differ
  by_cases htable : (e.root c'.bus.toNat).contextTablePtr = (e.root c.bus.toNat).contextTablePtr
  · have hbus : c'.bus = c.bus :=
      BitVec.eq_of_toNat_eq (h.tables_apart _ _ hroot' hroot htable)
    have hindex : contextIndex c'.sid ≠ contextIndex c.sid := fun hindex =>
      hne (Bdf.eq_of_bus hbus hindex)
    rw [htable, update_self, update_of_ne hindex, ← htable]
    rfl
  · rw [update_of_ne htable]
    rfl

/-- A context entry for a source that has none. -/
lemma Inv.addContext (hfree : e.slMap.get? c.sid = none) (hsupply : frame ∉ e.supply)
    (hcontext : ∀ entry ∈ e.slMap.list, entry.2.root ≠ frame) :
    (e.addContext (e.root c.bus.toNat).contextTablePtr c.sid frame).Inv where
  reserved := h.reserved
  fresh := h.fresh
  tables_used := h.tables_used
  tables_apart := h.tables_apart
  contexts_used := by
    intro entry hentry
    rcases mem_append.1 hentry with hold | hnew
    · exact h.contexts_used entry hold
    · rw [mem_singleton.1 hnew]
      exact hsupply
  contexts_apart := by
    show ((e.slMap.list ++ [(c.sid, _)]).map _).Nodup
    rw [map_append]
    apply h.contexts_apart.append (nodup_singleton _)
    intro root hold hnew
    rcases mem_map.1 hold with ⟨entry, hentry, rfl⟩
    exact hcontext entry hentry (mem_singleton.1 hnew)
  mapped := by
    intro c'
    -- the function itself has both now, for the others nothing has changed
    by_cases hc : c' = c
    · subst hc
      apply iff_of_true
      · refine ⟨hroot, ?_⟩
        rw [addContext_entryOf_self]
        rfl
      · refine ⟨_, (HashMap.get?_pushBack_of_none hfree).trans (if_pos rfl)⟩
    · have hget : (e.addContext (e.root c.bus.toNat).contextTablePtr c.sid frame).slMap.get? c'.sid =
          e.slMap.get? c'.sid :=
        HashMap.get?_pushBack_of_ne fun hsid => hc (Bdf.sid_injective hsid.symm)
      rw [hget, ← h.mapped c']
      constructor
      · rintro ⟨hroot', hpresent⟩
        rw [h.addContext_entryOf_of_ne hroot hroot' hc] at hpresent
        exact ⟨hroot', hpresent⟩
      · rintro ⟨hroot', hpresent⟩
        refine ⟨hroot', ?_⟩
        rw [h.addContext_entryOf_of_ne hroot hroot' hc]
        exact hpresent
  id_one := by
    intro c' hfilled
    by_cases hc : c' = c
    · subst hc
      rw [addContext_entryOf_self]
      show BitVec.ofNat 16 e.domainIds.getFreeBit = _
      rw [h.reserved]
    · have hentry := h.addContext_entryOf_of_ne hroot hfilled.1 hc frame
      rw [hentry]
      apply h.id_one c'
      exact ⟨hfilled.1, by rw [← hentry]; exact hfilled.2⟩

/-- The entry of a source is written once and then kept. -/
lemma fillContextEntry_spec
    (hfill : e.fillContextEntry (e.root c.bus.toNat).contextTablePtr c.sid = some e₁) :
    e₁.Inv ∧ (∀ k x, e.slMap.get? k = some x → e₁.slMap.get? k = some x) ∧
      e₁.nDomainIds = e.nDomainIds := by
  unfold fillContextEntry at hfill
  split at hfill
  · rw [← Option.some.inj hfill]
    exact ⟨h, fun _ _ hx => hx, rfl⟩
  · rename_i habsent
    split at hfill
    · cases hfill
    · split at hfill
      · rcases Option.map_eq_some_iff.1 hfill with ⟨⟨frame, e'⟩, hcreate, rfl⟩
        have hnew := createTable_spec h hcreate
        -- without an entry there is no context for the source id yet
        have hfree : e'.slMap.get? c.sid = none := by
          rw [hnew.slMap, Option.eq_none_iff_forall_not_mem]
          intro x hx
          exact habsent ((h.mapped c).2 ⟨x, hx⟩).2
        have hroot' : (e'.root c.bus.toNat).present = true := by
          rw [hnew.root]
          exact hroot
        have hinv := hnew.inv.addContext hroot' hfree hnew.not_free hnew.not_context
        rw [hnew.root] at hinv
        refine ⟨hinv, ?_, hnew.nDomainIds⟩
        intro k x hx
        rw [← hnew.slMap] at hx
        exact HashMap.get?_pushBack_of_some hx
      · cases hfill

end

/-- A lookup answers with the cached context and forgets none. -/
lemma getTranslation_spec (h : e.Inv) {x : Context}
    (hget : e.getTranslation c.bus c.dev c.func = some (x, e₁)) :
    e₁.Inv ∧ e₁.slMap.get? c.sid = some x ∧
      (∀ k y, e.slMap.get? k = some y → e₁.slMap.get? k = some y) ∧
      e₁.nDomainIds = e.nDomainIds := by
  rcases Option.bind_eq_some_iff.1 hget with ⟨⟨table, e'⟩, hof, hrest⟩
  rcases Option.bind_eq_some_iff.1 hrest with ⟨e'', hfill, hmap⟩
  rcases Option.map_eq_some_iff.1 hmap with ⟨y, hy, hpair⟩
  rcases Prod.mk.inj hpair with ⟨rfl, rfl⟩
  -- first the table of the bus, then the entry in it
  rcases contextTableOf_spec h hof with ⟨hinv, hroot, rfl, hmap', hids⟩
  rcases fillContextEntry_spec hinv hroot hfill with ⟨hinv', hkept, hids'⟩
  refine ⟨hinv', hy, ?_, hids'.trans hids⟩
  intro k z hz
  rw [← hmap'] at hz
  exact hkept k z hz

end Engine

/-! ## Sequences of calls -/

/-- The engine and the answers so far, each with the function it was given for. -/
structure Calls where
  engine : Engine
  answers : List (Bdf × Context)

namespace Calls

def start (cap : BitVec 64) (levels : Nat) (supply : List Frame) : Calls :=
  { engine := Engine.start cap levels supply, answers := [] }

def step (s : Calls) (c : Bdf) : Option Calls :=
  (s.engine.getTranslation c.bus c.dev c.func).map fun (x, e) =>
    { engine := e, answers := s.answers ++ [(c, x)] }

/-- Both entries that a call accesses lie inside their tables. -/
def InTables (c : Bdf) : Prop :=
  c.bus.toNat < tableEntries ∧ Engine.contextIndex c.sid < tableEntries

/-- A function has one context, different functions have different roots and different domain ids,
which are not zero and below the number of ids, and all entries lie inside their tables. -/
structure Isolated (s : Calls) : Prop where
  same : ∀ a ∈ s.answers, ∀ b ∈ s.answers, a.1 = b.1 → a.2 = b.2
  roots : ∀ a ∈ s.answers, ∀ b ∈ s.answers, a.1 ≠ b.1 → a.2.root ≠ b.2.root
  ids_differ : ∀ a ∈ s.answers, ∀ b ∈ s.answers, a.1 ≠ b.1 →
    (s.engine.entryOf a.1).domainId ≠ (s.engine.entryOf b.1).domainId
  ids_valid : ∀ a ∈ s.answers, (s.engine.entryOf a.1).domainId ≠ 0#16 ∧
    (s.engine.entryOf a.1).domainId.toNat < s.engine.nDomainIds
  inside : ∀ a ∈ s.answers, InTables a.1

structure Inv (s : Calls) : Prop where
  engine : s.engine.Inv
  answered : ∀ a ∈ s.answers, s.engine.slMap.get? a.1.sid = some a.2
  ids : 16 ≤ s.engine.nDomainIds

variable {s t : Calls} {c : Bdf}

lemma Inv.step (h : s.Inv) (hstep : s.step c = some t) : t.Inv := by
  rcases Option.map_eq_some_iff.1 hstep with ⟨⟨x, e⟩, hget, rfl⟩
  rcases Engine.getTranslation_spec h.engine hget with ⟨hinv, hx, hkept, hids⟩
  refine ⟨hinv, ?_, by rw [hids]; exact h.ids⟩
  intro a ha
  rcases mem_append.1 ha with hold | hnew
  · exact hkept _ _ (h.answered a hold)
  · rw [mem_singleton.1 hnew]
    exact hx

lemma Inv.start {cap : BitVec 64} {levels : Nat} {supply : List Frame} (h : supply.Nodup) :
    (start cap levels supply).Inv where
  engine := Engine.Inv.start h
  answered := by
    intro a ha
    cases ha
  ids := by
    show 2 ^ 4 ≤ 2 ^ (2 * (cap.toNat % 8) + 4)
    exact Nat.pow_le_pow_right (by decide) (Nat.le_add_left _ _)

/-- The invariant along the calls, with one answer for each call. -/
lemma exec_inv (calls : List Bdf) :
    ∀ s t : Calls, s.Inv → exec step s calls = some t →
      t.Inv ∧ t.answers.map Prod.fst = s.answers.map Prod.fst ++ calls := by
  induction calls with
  | nil =>
    intro s t h hexec
    have heq : s = t := by simpa [exec] using hexec
    subst heq
    exact ⟨h, by simp⟩
  | cons c calls ih =>
    intro s t h hexec
    rcases exec_cons_some.1 hexec with ⟨u, hstep, hrest⟩
    rcases ih u t (h.step hstep) hrest with ⟨hinv, hanswers⟩
    refine ⟨hinv, ?_⟩
    rcases Option.map_eq_some_iff.1 hstep with ⟨⟨x, e⟩, _, rfl⟩
    rw [hanswers]
    simp

lemma exists_answer {calls : List Bdf}
    (h : t.answers.map Prod.fst = s.answers.map Prod.fst ++ calls) (hc : c ∈ calls) :
    ∃ a ∈ t.answers, a.1 = c := by
  apply mem_map.1
  rw [h]
  exact mem_append_right _ hc

/-- One function has one context, and two functions have different roots. -/
lemma Inv.contexts_isolated (h : s.Inv) :
    (∀ a ∈ s.answers, ∀ b ∈ s.answers, a.1 = b.1 → a.2 = b.2) ∧
      ∀ a ∈ s.answers, ∀ b ∈ s.answers, a.1 ≠ b.1 → a.2.root ≠ b.2.root := by
  refine ⟨?_, ?_⟩
  · intro a ha b hb hab
    have hanswer := h.answered a ha
    rw [hab, h.answered b hb] at hanswer
    exact (Option.some.inj hanswer).symm
  · intro a ha b hb hab hroot
    -- both stand in the map, which has no root twice, so they are one entry
    have hentry := inj_on_of_nodup_map h.engine.contexts_apart
      (HashMap.mem_of_get? (h.answered a ha)) (HashMap.mem_of_get? (h.answered b hb)) hroot
    exact hab (Bdf.sid_injective (Prod.mk.inj hentry).1)

lemma Inv.domainId_one (h : s.Inv) {a : Bdf × Context} (ha : a ∈ s.answers) :
    (s.engine.entryOf a.1).domainId = 1#16 :=
  h.engine.id_one a.1 ((h.engine.mapped a.1).2 ⟨a.2, h.answered a ha⟩)

lemma inTables_iff (c : Bdf) :
    InTables c ↔ c.bus.toNat ≠ 255 ∧ ¬ (c.dev.toNat = 31 ∧ c.func.toNat = 7) := by
  have hdev := c.dev_lt
  have hfunc := c.func_lt
  rw [InTables, Bdf.contextIndex_sid, tableEntries]
  omega

/-- A sequence of calls that comes to its end is isolated exactly if all calls are for one function,
and its entries are not the last ones of the two tables. -/
theorem domain_isolation_iff (cap : BitVec 64) (levels : Nat) (supply : List Frame)
    (calls : List Bdf) (s : Calls) (hsupply : supply.Nodup)
    (hexec : exec step (start cap levels supply) calls = some s) :
    s.Isolated ↔
      (∀ c ∈ calls, ∀ c' ∈ calls, c = c') ∧
        ∀ c ∈ calls, c.bus.toNat ≠ 255 ∧ ¬ (c.dev.toNat = 31 ∧ c.func.toNat = 7) := by
  rcases exec_inv calls _ s (Inv.start hsupply) hexec with ⟨hinv, hanswers⟩
  -- each answer belongs to a call
  have hback : ∀ a ∈ s.answers, a.1 ∈ calls := by
    intro a ha
    have hmem := List.mem_map_of_mem (f := Prod.fst) ha
    rw [hanswers] at hmem
    simpa [start] using hmem
  constructor
  · intro hisolated
    refine ⟨?_, ?_⟩
    · intro c hc c' hc'
      rcases exists_answer hanswers hc with ⟨a, ha, rfl⟩
      rcases exists_answer hanswers hc' with ⟨b, hb, rfl⟩
      -- two functions would share the domain id 1
      by_contra hne
      apply hisolated.ids_differ a ha b hb hne
      rw [hinv.domainId_one ha, hinv.domainId_one hb]
    · intro c hc
      rcases exists_answer hanswers hc with ⟨a, ha, rfl⟩
      exact (inTables_iff a.1).1 (hisolated.inside a ha)
  · rintro ⟨hone, hinside⟩
    refine ⟨hinv.contexts_isolated.1, hinv.contexts_isolated.2, ?_, ?_, ?_⟩
    · intro a ha b hb hne
      exact absurd (hone a.1 (hback a ha) b.1 (hback b hb)) hne
    · intro a ha
      rw [hinv.domainId_one ha]
      exact ⟨by decide, Nat.lt_of_lt_of_le (by decide) hinv.ids⟩
    · intro a ha
      exact (inTables_iff a.1).2 (hinside a.1 (hback a ha))

def firstFunction : Bdf where
  bus := 0
  dev := 0
  func := 0
  dev_lt := by decide
  func_lt := by decide

def secondFunction : Bdf where
  bus := 0
  dev := 0
  func := 1
  dev_lt := by decide
  func_lt := by decide

/-- Two calls for one function come to their end, and are isolated. -/
theorem domain_isolation_one_function :
    ∃ s, exec step (start 0 4 [1, 2]) [firstFunction, firstFunction] = some s ∧ s.Isolated := by
  have hexec : ∃ s, exec step (start 0 4 [1, 2]) [firstFunction, firstFunction] = some s :=
    Option.isSome_iff_exists.1 rfl
  rcases hexec with ⟨s, hs⟩
  refine ⟨s, hs, (domain_isolation_iff 0 4 [1, 2] [firstFunction, firstFunction] s
    (by decide) hs).2 ⟨?_, ?_⟩⟩
  · intro c hc c' hc'
    simp only [List.mem_cons, List.not_mem_nil, or_false, or_self] at hc hc'
    rw [hc, hc']
  · intro c hc
    simp only [List.mem_cons, List.not_mem_nil, or_false, or_self] at hc
    rw [hc]
    decide

/-- The two functions of one device share their domain id. -/
theorem domain_id_shared :
    ¬ ∀ (cap : BitVec 64) (levels : Nat) (supply : List Frame) (calls : List Bdf) (s : Calls),
      supply.Nodup → exec step (start cap levels supply) calls = some s → s.Isolated := by
  intro h
  have hexec : ∃ s, exec step (start 0 4 [1, 2, 3]) [firstFunction, secondFunction] = some s :=
    Option.isSome_iff_exists.1 rfl
  rcases hexec with ⟨s, hs⟩
  have hisolated := h 0 4 [1, 2, 3] _ s (by decide) hs
  rcases exec_inv _ _ s (Inv.start (by decide)) hs with ⟨hinv, hanswers⟩
  rcases exists_answer (c := firstFunction) hanswers (by simp) with ⟨a, ha, hfirst⟩
  rcases exists_answer (c := secondFunction) hanswers (by simp) with ⟨b, hb, hsecond⟩
  apply hisolated.ids_differ a ha b hb
  · rw [hfirst, hsecond]
    intro heq
    exact absurd (congrArg Bdf.func heq) (by decide)
  · rw [hinv.domainId_one ha, hinv.domainId_one hb]

end Calls

end SigmaOS.Arch.VtD
