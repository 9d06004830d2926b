import Mathlib.Algebra.Group.Nat.Defs
import Mathlib.Data.Nat.Notation

/-!
# Proc.Initrd — files of the initial ramdisk

The initrd is a TAR archive in memory.  `headers` is the list that `initrd::init` builds: the
addresses of the member headers in archive order.  The memory is that of the kernel's window, which
nothing here writes; `read_file` is modelled by the address it copies from, and its callers say
where the bytes go.  The lock is left out.
-/

namespace SigmaOS.Proc

structure Initrd where
  mem : BitVec 64 → BitVec 8
  headers : List (BitVec 64)

namespace Initrd

/-- The loop of `get_header_number` with `j` digits to go; a digit is a signed `char`. -/
def headerNumberLoop (mem : BitVec 64 → BitVec 8) (digits : BitVec 64) :
    Nat → BitVec 64 → BitVec 64 → BitVec 64
  | 0, _, size => size
  | j + 1, count, size =>
    let digit := (mem (digits + BitVec.ofNat 64 j)).signExtend 64 - 48#64
    headerNumberLoop mem digits j (count * 8#64) (size + digit * count)

def getHeaderNumber (mem : BitVec 64 → BitVec 8) (digits : BitVec 64) : BitVec 64 :=
  headerNumberLoop mem digits 11 1#64 0#64

/-- The loop of `init` with `n` rounds to go: it stops at the first header without a name, and leaves
room for the header and for the contents, rounded up to blocks. -/
def initLoop (mem : BitVec 64 → BitVec 8) : Nat → BitVec 64 → List (BitVec 64)
  | 0, _ => []
  | n + 1, address =>
    if mem address = 0#8 then
      []
    else
      let entrySize := getHeaderNumber mem (address + 124#64)
      let next := address + (entrySize / 512#64 + 1#64) * 512#64
      address :: initLoop mem n (if entrySize % 512#64 = 0#64 then next else next + 512#64)

def init (mem : BitVec 64 → BitVec 8) (address size : BitVec 64) : Initrd :=
  { mem := mem, headers := initLoop mem size.toNat address }

/-- `strcmp(s, name) == 0` for the string at `s`; the list holds the bytes of `name` without its
terminating zero, and what follows a zero in it is not part of the name. -/
def sameString (mem : BitVec 64 → BitVec 8) : BitVec 64 → List (BitVec 8) → Bool
  | s, [] => mem s == 0#8
  | s, c :: cs => mem s == c && (c == 0#8 || sameString mem (s + 1#64) cs)

/-- The first header with the name, where both loops over `headers` stop. -/
def find (r : Initrd) (fileName : List (BitVec 8)) : Option (BitVec 64) :=
  r.headers.find? fun header => sameString r.mem header fileName

/-- The size of the member at `header`; `tar_header::size` is at byte 124. -/
def memberSize (r : Initrd) (header : BitVec 64) : BitVec 64 :=
  getHeaderNumber r.mem (header + 124#64)

def memberData (header : BitVec 64) : BitVec 64 :=
  header + 512#64

def getSize (r : Initrd) (fileName : List (BitVec 8)) : BitVec 64 :=
  match r.find fileName with
  | some header => r.memberSize header
  | none => 0#64

/-- `read_file`: the address from which `size` bytes are copied, or `none` where it returns
`false`.  The check adds in 64 bits and lets one byte past the end through. -/
def readFile (r : Initrd) (fileName : List (BitVec 8)) (offset size : BitVec 64) :
    Option (BitVec 64) :=
  if size + offset > r.getSize fileName + 1#64 then
    none
  else
    (r.find fileName).map fun header => memberData header + offset

lemma readFile_some {r : Initrd} {fileName : List (BitVec 8)} {offset size header src : BitVec 64}
    (hfind : r.find fileName = some header) (h : r.readFile fileName offset size = some src) :
    src = memberData header + offset := by
  unfold readFile at h
  split at h
  · cases h
  · simpa [hfind] using h.symm

/-! ## What a request may read -/

/-- `a` is the address of a byte of the contents of the member at `header`. -/
def Content (r : Initrd) (header a : BitVec 64) : Prop :=
  ∃ k, k < (r.memberSize header).toNat ∧ a = memberData header + BitVec.ofNat 64 k

/-- `read_file` returns `false`, or the file exists, the request ends inside it, and every byte that
is copied is one of its contents. -/
def ReadsInside (r : Initrd) (fileName : List (BitVec 8)) (offset size : BitVec 64) : Prop :=
  ∀ src, r.readFile fileName offset size = some src →
    ∃ header, r.find fileName = some header ∧
      offset.toNat + size.toNat ≤ (r.memberSize header).toNat ∧
      ∀ k < size.toNat, r.Content header (src + BitVec.ofNat 64 k)

/-- If the file exists, the request does not end one byte behind it, and an end that does not fit
into 64 bits leaves a remainder that is more than the length plus one. -/
def EndsRight (r : Initrd) (fileName : List (BitVec 8)) (offset size : BitVec 64) : Prop :=
  ∀ header, r.find fileName = some header →
    offset.toNat + size.toNat ≠ (r.memberSize header).toNat + 1 ∧
      (2 ^ 64 ≤ offset.toNat + size.toNat →
        ((r.memberSize header).toNat + 1) % 2 ^ 64 < offset.toNat + size.toNat - 2 ^ 64)

variable {r : Initrd} {fileName : List (BitVec 8)} {offset size header : BitVec 64}

lemma readFile_of_find (hfind : r.find fileName = some header) :
    r.readFile fileName offset size =
      if size + offset > r.memberSize header + 1#64 then none
      else some (memberData header + offset) := by
  simp [readFile, getSize, hfind]

lemma content_of_le {k : Nat} (hk : k < size.toNat)
    (hend : offset.toNat + size.toNat ≤ (r.memberSize header).toNat) :
    r.Content header (memberData header + offset + BitVec.ofNat 64 k) := by
  refine ⟨offset.toNat + k, by omega, ?_⟩
  rw [BitVec.add_assoc]
  congr 1
  apply BitVec.eq_of_toNat_eq
  simp

lemma passes_iff (length : BitVec 64) :
    ¬ size + offset > length + 1#64 ↔
      (offset.toNat + size.toNat) % 2 ^ 64 ≤ (length.toNat + 1) % 2 ^ 64 := by
  rw [gt_iff_lt, BitVec.not_lt, BitVec.le_def, BitVec.toNat_add, BitVec.toNat_add,
    Nat.add_comm size.toNat]
  simp

/-- For which requests the check is right, whatever the memory at the archive's address holds. -/
theorem init_readFile_bounds_iff (mem : BitVec 64 → BitVec 8) (address archiveSize : BitVec 64)
    (fileName : List (BitVec 8)) (offset size : BitVec 64) :
    (init mem address archiveSize).ReadsInside fileName offset size ↔
      (init mem address archiveSize).EndsRight fileName offset size := by
  generalize init mem address archiveSize = r
  have hoffset := offset.isLt
  have hsize := size.isLt
  constructor
  · intro hinside header hfind
    have hlen := (r.memberSize header).isLt
    -- if the check passes, the request ends inside the file
    have hpass : (offset.toNat + size.toNat) % 2 ^ 64 ≤
        ((r.memberSize header).toNat + 1) % 2 ^ 64 →
        offset.toNat + size.toNat ≤ (r.memberSize header).toNat := by
      intro hle
      have hread : r.readFile fileName offset size = some (memberData header + offset) := by
        rw [readFile_of_find hfind, if_neg ((passes_iff _).2 hle)]
      rcases hinside _ hread with ⟨header', hfind', hend, _⟩
      have heq : header = header' := by simpa [hfind] using hfind'
      rwa [heq]
    omega
  · intro hright src hread
    cases hfind : r.find fileName with
    | none => simp [readFile, hfind] at hread
    | some header =>
      have hlen := (r.memberSize header).isLt
      rcases hright header hfind with ⟨hnext, hwrap⟩
      rw [readFile_of_find hfind] at hread
      split at hread
      · cases hread
      · rename_i hcheck
        have hle := (passes_iff _).1 hcheck
        have hend : offset.toNat + size.toNat ≤ (r.memberSize header).toNat := by omega
        refine ⟨header, rfl, hend, ?_⟩
        intro k hk
        rw [← Option.some.inj hread]
        exact content_of_le hk hend

/-- The memory of an archive with one empty file, whose name is the letter `f`. -/
def emptyFile (a : BitVec 64) : BitVec 8 :=
  if a = 4096#64 then 102#8 else if 4220#64 ≤ a ∧ a < 4231#64 then 48#8 else 0#8

/-- One byte of the empty file can be read. -/
theorem readFile_past_end :
    ¬ ∀ (mem : BitVec 64 → BitVec 8) (address archiveSize : BitVec 64) (fileName : List (BitVec 8))
      (offset size : BitVec 64),
      (init mem address archiveSize).ReadsInside fileName offset size := by
  intro h
  have hread : (init emptyFile 4096#64 1024#64).readFile [102#8] 0#64 1#64 = some 4608#64 := by
    decide
  have hfind : (init emptyFile 4096#64 1024#64).find [102#8] = some 4096#64 := by decide
  have hsize : (init emptyFile 4096#64 1024#64).memberSize 4096#64 = 0#64 := by decide
  rcases h emptyFile 4096#64 1024#64 [102#8] 0#64 1#64 _ hread with ⟨header, hheader, hend, _⟩
  rw [hfind] at hheader
  rw [← Option.some.inj hheader, hsize] at hend
  exact absurd hend (by decide)

end Initrd
end SigmaOS.Proc
