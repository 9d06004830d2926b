import Mathlib.Algebra.Group.Nat.Defs
import Mathlib.Data.List.Induction

/-!
# Types.Containers — `types::bitmap` and `types::hash_map`

The bitmap is its array of bytes.  The hash map is a linked list of pairs that is searched from the
front; with the `nop_hasher` the hash of a key is the key.
-/

namespace SigmaOS.Types

open Option

/-- `div_ceil` of `misc.h` and of `math.hpp`; the sum wraps around. -/
def divCeil (val div : BitVec 64) : BitVec 64 :=
  (val + div - 1#64) / div

/-- The sum of a value and its block size, and then the blocks. -/
lemma divCeil_toNat (val div : BitVec 64) :
    (divCeil val div).toNat = (val.toNat + (div - 1#64).toNat) % 2 ^ 64 / div.toNat := by
  have hsum : val + div - 1#64 = val + (div - 1#64) := by
    rw [BitVec.sub_eq_add_neg, BitVec.sub_eq_add_neg, BitVec.add_assoc]
  rw [divCeil, hsum, BitVec.toNat_udiv, BitVec.toNat_add]

/-! ## Bitmaps -/

structure Bitmap where
  array : List (BitVec 8)

namespace Bitmap

/-- `bitmap(size_t n_bits)`: all bits are clear. -/
def ofBits (nBits : Nat) : Bitmap :=
  { array := List.replicate ((nBits + 7) / 8) 0#8 }

def set (b : Bitmap) (bit : Nat) : Bitmap :=
  { array := b.array.modify (bit / 8) (· ||| 1#8 <<< (bit % 8)) }

/-- The loops of `get_free_bit`, from the byte `i` on. -/
def freeBitFrom : Nat → List (BitVec 8) → Option Nat
  | _, [] => none
  | i, byte :: bytes =>
    if byte ≠ 0xFF#8 then
      match (List.range 8).find? fun j => byte &&& 1#8 <<< j = 0#8 with
      | some j => some (i * 8 + j)
      | none => freeBitFrom (i + 1) bytes
    else
      freeBitFrom (i + 1) bytes

/-- `get_free_bit`; the answer for a full bitmap is `(uint64_t)-1`. -/
def getFreeBit (b : Bitmap) : Nat :=
  (freeBitFrom 0 b.array).getD (2 ^ 64 - 1)

lemma getFreeBit_set_zero {nBits : Nat} (h : 0 < nBits) :
    ((ofBits nBits).set 0).getFreeBit = 1 := by
  -- there is a first byte, and only its bit 0 is set
  have hbytes : (nBits + 7) / 8 = (nBits - 1) / 8 + 1 := by omega
  rw [getFreeBit, set, ofBits, hbytes, List.replicate_succ]
  show (freeBitFrom 0 (1#8 :: _)).getD _ = 1
  rfl

end Bitmap

/-! ## Hash maps -/

structure HashMap (K V : Type) where
  list : List (K × V)

namespace HashMap

variable {K V : Type} [DecidableEq K] {m : HashMap K V} {k k' : K} {v v' : V}

def pushBack (m : HashMap K V) (k : K) (v : V) : HashMap K V :=
  { list := m.list ++ [(k, v)] }

/-- `operator[]`: the first entry with the key, a panic if there is none. -/
def get? (m : HashMap K V) (k : K) : Option V :=
  (m.list.find? fun entry => entry.1 = k).map Prod.snd

lemma mem_of_get? (h : m.get? k = some v) : (k, v) ∈ m.list := by
  rcases map_eq_some_iff.1 h with ⟨⟨k', v'⟩, hfind, rfl⟩
  have hkey : k' = k := by simpa using List.find?_some hfind
  rw [← hkey]
  exact List.mem_of_find?_eq_some hfind

lemma get?_pushBack_of_some (h : m.get? k = some v) : (m.pushBack k' v').get? k = some v := by
  rcases map_eq_some_iff.1 h with ⟨entry, hfind, hv⟩
  rw [get?, pushBack, List.find?_append, hfind, some_or, map_some, hv]

lemma get?_pushBack_of_none (h : m.get? k = none) :
    (m.pushBack k' v').get? k = if k' = k then some v' else none := by
  have hfind : (m.list.find? fun entry => entry.1 = k) = none := map_eq_none_iff.1 h
  rw [get?, pushBack, List.find?_append, hfind, none_or]
  by_cases hk : k' = k
  · simp [hk]
  · simp [hk]

lemma get?_pushBack_of_ne (h : k' ≠ k) : (m.pushBack k' v').get? k = m.get? k := by
  cases hget : m.get? k with
  | none => rw [get?_pushBack_of_none hget, if_neg h]
  | some v => exact get?_pushBack_of_some hget

end HashMap

/-! ## Handles -/

inductive HandleType where
  | vCpu
  | vSpace
  | irq
  | ipcRing
  deriving DecidableEq, Repr

/-- A `handle`, which stands for the object at its address. -/
structure Handle where
  type : HandleType
  object : BitVec 64
  deriving DecidableEq, Repr

structure HandleCatalogue where
  nextId : BitVec 64
  catalogue : HashMap (BitVec 64) (Option Handle)

namespace HandleCatalogue

def new : HandleCatalogue :=
  ⟨0#64, ⟨[]⟩⟩

def push (c : HandleCatalogue) (handle : Option Handle) : BitVec 64 × HandleCatalogue :=
  (c.nextId, ⟨c.nextId + 1#64, c.catalogue.pushBack c.nextId handle⟩)

/-- `get<T>`, where `type` is `T::default_type`. -/
def get (c : HandleCatalogue) (type : HandleType) (id : BitVec 64) : Option (Option Handle) :=
  match c.catalogue.get? id with
  | none => none
  | some none => some none
  -- a handle of another type fails the assertion
  | some (some handle) => if handle.type = type then some (some handle) else none

def pushAll (handles : List (Option Handle)) : HandleCatalogue :=
  handles.foldl (fun c handle => (c.push handle).2) new

lemma pushAll_append (handles : List (Option Handle)) (handle : Option Handle) :
    pushAll (handles ++ [handle]) = ((pushAll handles).push handle).2 := by
  rw [pushAll, List.foldl_append]
  rfl

lemma pushAll_nextId (handles : List (Option Handle)) :
    (pushAll handles).nextId = BitVec.ofNat 64 handles.length := by
  induction handles using List.reverseRecOn with
  | nil => rfl
  | append_singleton handles handle ih =>
    rw [pushAll_append, List.length_append, BitVec.ofNat_add, ← ih]
    rfl

/-- The identifiers start again after `2 ^ 64` handles, but the search finds the oldest entry. -/
lemma pushAll_get? (handles : List (Option Handle)) (id : BitVec 64) :
    (pushAll handles).catalogue.get? id = handles[id.toNat]? := by
  induction handles using List.reverseRecOn with
  | nil => rfl
  | append_singleton handles handle ih =>
    rw [pushAll_append]
    show ((pushAll handles).catalogue.pushBack _ handle).get? id = _
    by_cases hlt : id.toNat < handles.length
    · rw [List.getElem?_append_left hlt]
      rw [List.getElem?_eq_getElem hlt] at ih ⊢
      exact HashMap.get?_pushBack_of_some ih
    · rw [List.getElem?_eq_none (Nat.le_of_not_lt hlt)] at ih
      rw [HashMap.get?_pushBack_of_none ih, pushAll_nextId]
      by_cases hlast : handles.length = id.toNat
      · have hkey : BitVec.ofNat 64 handles.length = id := by
          rw [hlast, BitVec.ofNat_toNat, BitVec.setWidth_eq]
        rw [if_pos hkey, ← hlast, List.getElem?_concat_length]
      · have hkey : BitVec.ofNat 64 handles.length ≠ id := by
          intro heq
          have hnat := congrArg BitVec.toNat heq
          rw [BitVec.toNat_ofNat] at hnat
          omega
        rw [if_neg hkey, List.getElem?_eq_none]
        rw [List.length_append, List.length_singleton]
        omega

/-- After any number of calls, the kernel gets the handle that was pushed as number `id`, and it stops
exactly for a number that is not in use, or in use for another type.  A new handle is found under its
own identifier as long as fewer than `2 ^ 64` were pushed before it. -/
theorem catalogue_exact (handles : List (Option Handle)) (type : HandleType) (id : BitVec 64) :
    (∀ handle, (pushAll handles).get type id = some (some handle) ↔
      handles[id.toNat]? = some (some handle) ∧ handle.type = type) ∧
    ((pushAll handles).get type id = none ↔ handles.length ≤ id.toNat ∨
      ∃ handle, handles[id.toNat]? = some (some handle) ∧ handle.type ≠ type) ∧
    (handles.length < 2 ^ 64 → ∀ handle, id = ((pushAll handles).push handle).1 →
      (pushAll (handles ++ [handle])).catalogue.get? id = some handle) := by
  refine ⟨fun handle => ?_, ?_, ?_⟩
  · rw [get, pushAll_get?]
    rcases handles[id.toNat]? with _ | _ | found
    · simp
    · simp
    · simp only [ite_none_right_eq_some, Option.some.injEq]
      constructor
      · rintro ⟨htype, rfl⟩
        exact ⟨rfl, htype⟩
      · rintro ⟨rfl, htype⟩
        exact ⟨htype, rfl⟩
  · rw [get, pushAll_get?, ← List.getElem?_eq_none_iff]
    rcases handles[id.toNat]? with _ | _ | found <;> simp
  · intro hlt handle hid
    have hlength : id.toNat = handles.length := by
      rw [hid]
      show (pushAll handles).nextId.toNat = _
      rw [pushAll_nextId, BitVec.toNat_ofNat, Nat.mod_eq_of_lt hlt]
    rw [pushAll_get?, hlength, List.getElem?_concat_length]

end HandleCatalogue

end SigmaOS.Types
