import Mathlib.Algebra.Group.Int.Defs
import SigmaOS.Lib.Run
import SigmaOS.Zeta.Mount

/-!
# Zeta.Vfs — the descriptors of the threads

`Vfs` has the mount list and for every thread its `thread_vfs_entry`: the counter `free_fd` and the
map from numbers to descriptors.  The calls are `open`, `read`, `write`, `seek`, `tell`, `dup2` and
`close` of `fs::vfs`; `getThreadEntry` is what all but `seek` and `tell` do first, with the standard
descriptors of a thread that is seen for the first time.

The file systems are on the other side of `FileSystems`: what they answer during one call.  The nodes
are of any type `ν`.  `Answer` is what a call returns, and what it asked of the file system.  An
exception or undefined behaviour in the search for the mount, and the overflow of `free_fd`, an `int`,
give `none`.
-/

namespace SigmaOS.Zeta

open Function Option

variable {ν : Type}

/-! ## State -/

structure FdData (ν : Type) where
  isOpen : Bool
  fd : Int
  node : Option ν
  mode : Int
  offset : BitVec 64
  deriving DecidableEq

/-- What `fd_map[fd]` creates for a number that is not in the map. -/
def FdData.zero : FdData ν :=
  ⟨false, 0, none, 0, 0#64⟩

structure ThreadVfsEntry (ν : Type) where
  freeFd : Int
  fdMap : Int → FdData ν
  cwd : List Char
  enabled : Bool

def ThreadVfsEntry.new : ThreadVfsEntry ν :=
  ⟨3, fun _ => .zero, [], false⟩

/-- `oWronly` is the constant `O_WRONLY` of the C library. -/
structure Vfs (ν : Type) where
  mountList : List Mount
  oWronly : Int
  threadData : Nat → ThreadVfsEntry ν

def Vfs.new (mountList : List Mount) (oWronly : Int) : Vfs ν :=
  ⟨mountList, oWronly, fun _ => .new⟩

/-- What the file systems answer during a call: the node that `open` finds, the result of `read` with
what it puts into the buffer, the result of `write`, and the type and length of a node. -/
structure FileSystems (ν : Type) where
  openNode : Nat → List Char → Int → Option ν
  read : ν → Nat → BitVec 64 → BitVec 32 × List (BitVec 8)
  write : ν → List (BitVec 8) → Nat → BitVec 64 → BitVec 32
  isFile : ν → Bool
  length : ν → BitVec 64

namespace ThreadVfsEntry

def setFd (t : ThreadVfsEntry ν) (fd : Int) (d : FdData ν) : ThreadVfsEntry ν :=
  { t with fdMap := Function.update t.fdMap fd d }

/-- `vfs::open` for a thread that is enabled. -/
def openPath (mountList : List Mount) (fs : FileSystems ν) (t : ThreadVfsEntry ν) (path : List Char)
    (mode : Int) : Option (ThreadVfsEntry ν × Int) :=
  match getMountpoint mountList t.cwd path with
  | none => none
  | some (none, _) => some (t, -1)
  | some (some calls, localPath) =>
    match fs.openNode calls localPath mode with
    | none => some (t, -1)
    | some node =>
      if t.freeFd < 2 ^ 31 - 1 then
        some ({ t.setFd t.freeFd ⟨true, t.freeFd, some node, mode, 0#64⟩ with
          freeFd := t.freeFd + 1 }, t.freeFd)
      else
        none

def close (t : ThreadVfsEntry ν) (fd : Int) : ThreadVfsEntry ν :=
  if (t.fdMap fd).isOpen then t.setFd fd { t.fdMap fd with isOpen := false } else t

def dup2 (t : ThreadVfsEntry ν) (oldfd newfd : Int) : ThreadVfsEntry ν × Int :=
  if !(t.fdMap oldfd).isOpen then
    (t, -1)
  else if oldfd = newfd ∧ (t.fdMap oldfd).isOpen then
    (t, newfd)
  else
    let t := if (t.fdMap newfd).isOpen then t.close newfd else t
    (t.setFd newfd { t.fdMap oldfd with fd := newfd }, newfd)

def stdoutPath : List Char :=
  ['/', 'd', 'e', 'v', '/', 's', 't', 'd', 'o', 'u', 't']

def stderrPath : List Char :=
  ['/', 'd', 'e', 'v', '/', 's', 't', 'd', 'e', 'r', 'r']

/-- One of the standard descriptors: `open`, and `dup2` of what it returned. -/
def openStandard (mountList : List Mount) (oWronly : Int) (fs : FileSystems ν)
    (t : ThreadVfsEntry ν) (path : List Char) (newfd : Int) : Option (ThreadVfsEntry ν) :=
  (t.openPath mountList fs path oWronly).map fun r => (r.1.dup2 r.2 newfd).1

end ThreadVfsEntry

namespace Vfs

def getThreadEntry (v : Vfs ν) (fs : FileSystems ν) (tid : Nat) : Option (ThreadVfsEntry ν) :=
  let data := v.threadData tid
  if data.enabled then
    some data
  else
    let data := { data with enabled := true, fdMap := fun _ => .zero }
    (data.openStandard v.mountList v.oWronly fs ThreadVfsEntry.stdoutPath 1).bind fun data =>
      data.openStandard v.mountList v.oWronly fs ThreadVfsEntry.stderrPath 2

def setThreadEntry (v : Vfs ν) (tid : Nat) (t : ThreadVfsEntry ν) : Vfs ν :=
  { v with threadData := Function.update v.threadData tid t }

end Vfs

/-! ## Calls -/

inductive Whence where
  | set
  | cur
  | fromEnd
  | invalid
  deriving DecidableEq, Repr

inductive Call where
  | openPath (path : List Char) (mode : Int)
  | read (fd : Int) (count : Nat)
  | write (fd : Int) (buf : List (BitVec 8)) (count : Nat)
  | seek (fd : Int) (offset : BitVec 64) (whence : Whence)
  | tell (fd : Int)
  | dup2 (oldfd newfd : Int)
  | close (fd : Int)
  deriving DecidableEq, Repr

/-- What a call returns, what it leaves in the buffer, and the offset that it passed to a file
system. -/
structure Answer where
  ret : Int
  data : List (BitVec 8)
  passed : Option (BitVec 64)
  deriving DecidableEq, Repr

def Answer.status (ret : Int) : Answer :=
  ⟨ret, [], none⟩

/-- The part of `vfs::seek` under its condition. -/
def FdData.seek (length offset : BitVec 64) (d : FdData ν) : Whence → FdData ν
  | .set => { d with offset := offset }
  | .cur => d
  | .fromEnd => { d with offset := length }
  | .invalid => d

namespace ThreadVfsEntry

/-- `vfs::read` and `vfs::write` on a descriptor: the node's function gets the node and the offset.  A
descriptor that is open has a node. -/
def transfer (t : ThreadVfsEntry ν) (fd : Int)
    (request : ν → BitVec 64 → BitVec 32 × List (BitVec 8)) : Answer :=
  let d := t.fdMap fd
  match d.isOpen, d.node with
  | true, some node => ⟨(request node d.offset).1.toInt, (request node d.offset).2, some d.offset⟩
  | _, _ => .status (-1)

def seek (fs : FileSystems ν) (t : ThreadVfsEntry ν) (fd : Int) (offset : BitVec 64)
    (whence : Whence) : ThreadVfsEntry ν :=
  let d := t.fdMap fd
  match d.isOpen, d.node with
  | true, some node =>
    if fs.isFile node then t.setFd fd (d.seek (fs.length node) offset whence) else t
  | _, _ => t

def tell (t : ThreadVfsEntry ν) (fd : Int) : BitVec 64 :=
  if (t.fdMap fd).isOpen then (t.fdMap fd).offset else BitVec.allOnes 64

/-- What a call does to the entry of its thread, after `get_thread_entry` where the call uses it. -/
def call (mountList : List Mount) (fs : FileSystems ν) (t : ThreadVfsEntry ν) :
    Call → Option (ThreadVfsEntry ν × Answer)
  | .openPath path mode => (t.openPath mountList fs path mode).map fun r => (r.1, .status r.2)
  | .read fd count => some (t, t.transfer fd fun node offset => fs.read node count offset)
  | .write fd buf count =>
    some (t, t.transfer fd fun node offset => (fs.write node buf count offset, []))
  | .seek fd offset whence => some (t.seek fs fd offset whence, .status 0)
  | .tell fd => some (t, .status (t.tell fd).toNat)
  | .dup2 oldfd newfd => some ((t.dup2 oldfd newfd).1, .status (t.dup2 oldfd newfd).2)
  | .close fd => some (t.close fd, .status 0)

end ThreadVfsEntry

/-- `seek` and `tell` look into `thread_data` directly. -/
def Call.usesEntry : Call → Bool
  | .seek .. => false
  | .tell .. => false
  | _ => true

structure Request (ν : Type) where
  tid : Nat
  fs : FileSystems ν
  call : Call

namespace Vfs

def entryFor (v : Vfs ν) (q : Request ν) : Option (ThreadVfsEntry ν) :=
  if q.call.usesEntry then v.getThreadEntry q.fs q.tid else some (v.threadData q.tid)

def step (v : Vfs ν) (q : Request ν) : Option (Vfs ν × Answer) :=
  (v.entryFor q).bind fun t =>
    (t.call v.mountList q.fs q.call).map fun r => (v.setThreadEntry q.tid r.1, r.2)

end Vfs

namespace ThreadVfsEntry

variable {mountList : List Mount} {fs : FileSystems ν} {t t' : ThreadVfsEntry ν} {fd oldfd newfd : Int}

variable {d : FdData ν} {path : List Char}

@[simp] lemma setFd_freeFd : (t.setFd fd d).freeFd = t.freeFd :=
  rfl

@[simp] lemma setFd_enabled : (t.setFd fd d).enabled = t.enabled :=
  rfl

@[simp] lemma setFd_fdMap : (t.setFd fd d).fdMap = Function.update t.fdMap fd d :=
  rfl

@[simp] lemma setFd_self : t.setFd fd (t.fdMap fd) = t := by
  rw [setFd, update_eq_self]

/-- `open` fails, or fills the descriptor `free_fd` and moves it on. -/
lemma openPath_cases {mode r : Int} (h : t.openPath mountList fs path mode = some (t', r)) :
    t' = t ∧ r = -1 ∨
      r = t.freeFd ∧ ∃ node, t' =
        { t.setFd t.freeFd ⟨true, t.freeFd, some node, mode, 0#64⟩ with freeFd := t.freeFd + 1 } := by
  unfold openPath at h
  split at h
  · cases h
  · cases h
    exact .inl ⟨rfl, rfl⟩
  · split at h
    · cases h
      exact .inl ⟨rfl, rfl⟩
    · next node _ =>
      split at h
      · cases h
        exact .inr ⟨rfl, node, rfl⟩
      · cases h

lemma openPath_enabled {mode r : Int} (h : t.openPath mountList fs path mode = some (t', r)) :
    t'.enabled = t.enabled := by
  rcases openPath_cases h with ⟨rfl, _⟩ | ⟨_, node, rfl⟩
  · rfl
  · rfl

lemma close_eq : t.close fd = t.setFd fd { t.fdMap fd with isOpen := false } := by
  unfold close
  split
  · rfl
  · next hclosed =>
    -- a descriptor that is not open is written back as it is
    have hsame : { t.fdMap fd with isOpen := false } = t.fdMap fd := by
      rw [Bool.not_eq_true] at hclosed
      rw [← hclosed]
    rw [hsame, setFd_self]

lemma dup2_closed (h : (t.fdMap oldfd).isOpen = false) : t.dup2 oldfd newfd = (t, -1) := by
  simp [dup2, h]

lemma dup2_same (h : (t.fdMap oldfd).isOpen = true) : t.dup2 oldfd oldfd = (t, oldfd) := by
  simp [dup2, h]

lemma dup2_open (h : (t.fdMap oldfd).isOpen = true) (hne : oldfd ≠ newfd) :
    t.dup2 oldfd newfd = (t.setFd newfd { t.fdMap oldfd with fd := newfd }, newfd) := by
  unfold dup2
  rw [h, Bool.not_true, if_neg Bool.false_ne_true, if_neg (fun hsame => hne hsame.1)]
  -- the target is closed first where it is open; the copy replaces it anyway
  split
  · simp [close_eq, setFd, update_of_ne hne]
  · rfl

lemma dup2_cases (t : ThreadVfsEntry ν) (oldfd newfd : Int) :
    (t.fdMap oldfd).isOpen = false ∧ t.dup2 oldfd newfd = (t, -1) ∨
      (t.fdMap oldfd).isOpen = true ∧ oldfd = newfd ∧ t.dup2 oldfd newfd = (t, newfd) ∨
      (t.fdMap oldfd).isOpen = true ∧ oldfd ≠ newfd ∧
        t.dup2 oldfd newfd = (t.setFd newfd { t.fdMap oldfd with fd := newfd }, newfd) := by
  cases h : (t.fdMap oldfd).isOpen with
  | false => exact .inl ⟨rfl, dup2_closed h⟩
  | true =>
    by_cases hne : oldfd = newfd
    · subst hne
      exact .inr (.inl ⟨rfl, rfl, dup2_same h⟩)
    · exact .inr (.inr ⟨rfl, hne, dup2_open h hne⟩)

lemma openStandard_enabled {oWronly : Int}
    (h : t.openStandard mountList oWronly fs path newfd = some t') : t'.enabled = t.enabled := by
  rcases map_eq_some_iff.1 h with ⟨r, hopen, rfl⟩
  rw [← openPath_enabled hopen]
  rcases dup2_cases r.1 r.2 newfd with ⟨_, hr⟩ | ⟨_, _, hr⟩ | ⟨_, _, hr⟩ <;> rw [hr]
  rfl

lemma seek_closed {offset : BitVec 64} {whence : Whence} (h : (t.fdMap fd).isOpen = false) :
    t.seek fs fd offset whence = t := by
  simp [seek, h]

lemma seek_eq (t : ThreadVfsEntry ν) (fs : FileSystems ν) (fd : Int) (offset : BitVec 64)
    (whence : Whence) :
    ∃ o, t.seek fs fd offset whence = t.setFd fd { t.fdMap fd with offset := o } := by
  dsimp only [seek]
  split
  · split
    · cases whence with
      | set => exact ⟨offset, rfl⟩
      | fromEnd => exact ⟨_, rfl⟩
      | _ => exact ⟨(t.fdMap fd).offset, rfl⟩
    · exact ⟨(t.fdMap fd).offset, setFd_self.symm⟩
  · exact ⟨(t.fdMap fd).offset, setFd_self.symm⟩

end ThreadVfsEntry

variable {v : Vfs ν} {tid : Nat} {t : ThreadVfsEntry ν}

lemma Vfs.getThreadEntry_enabled {fs : FileSystems ν} (h : v.getThreadEntry fs tid = some t) :
    t.enabled = true := by
  dsimp only [getThreadEntry] at h
  split at h
  · next henabled =>
    cases h
    exact henabled
  · rcases bind_eq_some_iff.1 h with ⟨t₁, hout, herr⟩
    rw [ThreadVfsEntry.openStandard_enabled herr, ThreadVfsEntry.openStandard_enabled hout]

@[simp] lemma Vfs.setThreadEntry_self : (v.setThreadEntry tid t).threadData tid = t :=
  update_self ..

lemma Vfs.setThreadEntry_of_ne {tid' : Nat} (h : tid' ≠ tid) :
    (v.setThreadEntry tid t).threadData tid' = v.threadData tid' :=
  update_of_ne h ..

lemma Vfs.step_some {v' : Vfs ν} {q : Request ν} {a : Answer} :
    v.step q = some (v', a) ↔
      ∃ t t', v.entryFor q = some t ∧ t.call v.mountList q.fs q.call = some (t', a) ∧
        v' = v.setThreadEntry q.tid t' := by
  constructor
  · intro h
    rcases bind_eq_some_iff.1 h with ⟨t, ht, hcall⟩
    rcases map_eq_some_iff.1 hcall with ⟨r, hr, heq⟩
    cases heq
    exact ⟨t, r.1, ht, hr, rfl⟩
  · rintro ⟨t, t', ht, hcall, rfl⟩
    simp [step, ht, hcall]

end SigmaOS.Zeta
