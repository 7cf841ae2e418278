import KernelProfile.Binary64
import KernelProfile.Bytes

/-! The multi-stream container. A superblock gives the page size and the place of the block map, the
block map lists the pages of the stream directory, and the directory lists the size and the
pages of every stream. The file is read in places, which the system may not let one go to. -/
namespace KernelProfile

/-- Why a container or a stream of it cannot be read. -/
inductive MsfError where
  | endOfData
  | outOfReach (offset : Nat)
  | badMagic
  | badPageSize (size : Nat)
  | noStream (index count : Nat)
  deriving DecidableEq, Repr

def MsfError.message : MsfError → String
  | endOfData => ""
  | outOfReach _ => ""
  | badMagic => "not an MSF 7.00 file (bad superblock magic)"
  | badPageSize size => "invalid MSF block size: " ++ Text.decimal size
  | noStream index count =>
    "stream " ++ Text.decimal index ++ " does not exist (" ++ Text.decimal count ++ " streams)"

/-- How a file is read: the largest offset that the system lets one go to, and how many bytes a
stream is read at a time. -/
structure Access where
  reach : Nat
  window : Nat := 8192
  window_pos : 0 < window := by decide

namespace Access

/-- Files held in memory, where every offset of 63 bits can be gone to. -/
def memory : Access := { reach := 2 ^ 63 - 1 }

/-- Files of a file system that counts blocks of 4096 bytes in 32 bits. -/
def disk : Access := { reach := (2 ^ 32 - 1) * 4096 }

/-- The largest offset that can be gone to in a file, all of which is in reach. -/
def limit (a : Access) (file : Bytes) : Nat := max a.reach file.length

/-- The bytes that a file has at an offset, up to a number of them. -/
def readAt (a : Access) (file : Bytes) (offset length : Nat) : Except MsfError Bytes :=
  if offset ≤ a.limit file then .ok (file.slice offset length) else .error (.outOfReach offset)

end Access

/-- A stream: its pages in order and its size in bytes. -/
structure PageStream where
  size : Nat
  pages : List Nat
  deriving DecidableEq, Repr

/-- A container: the file and how it is read, its page size and its streams. -/
structure Msf where
  access : Access
  file : Bytes
  pageSize : Nat
  streams : List PageStream

namespace Msf

/-- The least integer that is no less than a double. -/
def ceiling : Binary64 → Nat
  | .finite false m e =>
    Binary64.floorMagnitude m e + (if Binary64.isWhole m e then 0 else 1)
  | _ => 0

/-- The number of pages that hold `size` bytes. From 2^53 bytes on the quotient is that of
double-precision division. -/
def pageCount (size pageSize : Nat) : Nat :=
  if size < 2 ^ 53 then (size + pageSize - 1) / pageSize
  else ceiling (Binary64.ofFraction false size pageSize)

/-- The bytes that a file has for a range of a stream, page by page until the range or the pages
end. A page that the file does not reach yields what there is of it. -/
def gather (access : Access) (file : Bytes) (pageSize : Nat) (pages : List Nat)
    (offset length : Nat) : Except MsfError Bytes :=
  if _h : length = 0 ∨ pageSize = 0 then .ok []
  else
    match pages[offset / pageSize]? with
    | none => .ok []
    | some page => do
      let chunk := min length (pageSize - offset % pageSize)
      let bytes ← access.readAt file (page * pageSize + offset % pageSize) chunk
      let rest ← gather access file pageSize pages (offset + chunk) (length - chunk)
      return bytes ++ rest
termination_by length
decreasing_by
  have hl : 0 < length := by omega
  have hp : offset % pageSize < pageSize := Nat.mod_lt _ (by omega)
  omega

/-- A part of a range of a stream: the `count` bytes behind its first `skip`. -/
structure Cut where
  offset : Nat
  length : Nat
  skip : Nat
  count : Nat
  deriving DecidableEq, Repr

/-- The bytes of a cut. Nothing is read for an empty one. -/
def Cut.read (access : Access) (file : Bytes) (pageSize : Nat) (pages : List Nat) (c : Cut) :
    Except MsfError Bytes :=
  if c.count = 0 then .ok []
  else (gather access file pageSize pages c.offset c.length).map (·.slice c.skip c.count)

/-- The cuts that make up `count` bytes of a stream from a position on. The part before the next
window boundary and the part behind the last one are cut out of whole windows. -/
def cuts (window position count : Nat) : List Cut :=
  let skew := position % window
  let first := if skew = 0 then 0 else min count (window - skew)
  let whole := (count - first) / window * window
  [⟨position - skew, window, skew, first⟩,
    ⟨position + first, whole, 0, whole⟩,
    ⟨position + first + whole, window, 0, count - first - whole⟩]

/-- Read `count` bytes of a stream from a position on, or as many as lie before its end. -/
def readFrom (access : Access) (file : Bytes) (pageSize : Nat) (s : PageStream)
    (position count : Nat) : Except MsfError Bytes := do
  let parts ← (cuts access.window position (min count (s.size - position))).mapM
    (·.read access file pageSize s.pages)
  return parts.flatten

/-- The 32-bit words of a byte string. -/
def words : Bytes → List Nat
  | a :: b :: c :: d :: rest => Bytes.littleNat [a, b, c, d] :: words rest
  | _ => []

/-- Words that have to be there in full. -/
def wordsOf (count : Nat) (bytes : Bytes) : Except MsfError (List Nat) :=
  if bytes.length = 4 * count then .ok (words bytes) else .error .endOfData

/-- The page lists of the streams of the given sizes, read one after the other from a position of
the directory. -/
def readPageLists (access : Access) (file : Bytes) (pageSize : Nat) (directory : PageStream) :
    Nat → List Nat → Except MsfError (List PageStream)
  | _, [] => .ok []
  | position, announced :: sizes => do
    let size := if announced = 0xFFFFFFFF then 0 else announced
    let count := pageCount size pageSize
    let pages ← wordsOf count (← readFrom access file pageSize directory position (4 * count))
    let rest ← readPageLists access file pageSize directory (position + 4 * count) sizes
    return ⟨size, pages⟩ :: rest

/-- The text at the start of every container. -/
def magic : Bytes :=
  "Microsoft C/C++ MSF 7.00\r\n\x1aDS\x00\x00\x00".toList.map fun c => UInt8.ofNat c.toNat

/-- The size of the superblock. -/
def superblockSize : Nat := 56

def isPowerOfTwo (n : Nat) : Bool := n != 0 && n &&& (n - 1) == 0

/-- The page size that the superblock gives. -/
def pageSizeOf (file : Bytes) : Except MsfError Nat :=
  if file.length < superblockSize then .error .endOfData
  else if file.take 32 != magic then .error .badMagic
  else
    let pageSize := file.littleAt 32 4
    if isPowerOfTwo pageSize then .ok pageSize else .error (.badPageSize pageSize)

/-- The stream of the directory, whose pages the block map lists. -/
def directoryOf (access : Access) (file : Bytes) (pageSize : Nat) : Except MsfError PageStream := do
  let size := file.littleAt 44 4
  let count := pageCount size pageSize
  let map ← access.readAt file (file.littleAt 52 4 * pageSize) (4 * count)
  return ⟨size, ← wordsOf count map⟩

/-- The streams that a directory lists: their number, their sizes, and the pages of each. -/
def streamsOf (access : Access) (file : Bytes) (pageSize : Nat) (directory : PageStream) :
    Except MsfError (List PageStream) := do
  let counts ← wordsOf 1 (← readFrom access file pageSize directory 0 4)
  let count := counts.headD 0
  let sizes ← wordsOf count (← readFrom access file pageSize directory 4 (4 * count))
  readPageLists access file pageSize directory (4 + 4 * count) sizes

/-- The container of a file. -/
def ofBytes (file : Bytes) (access : Access := .memory) : Except MsfError Msf := do
  let pageSize ← pageSizeOf file
  let directory ← directoryOf access file pageSize
  return ⟨access, file, pageSize, ← streamsOf access file pageSize directory⟩

/-- A stream of the container. -/
def stream (m : Msf) (index : Nat) : Except MsfError PageStream :=
  match m.streams[index]? with
  | some s => .ok s
  | none => .error (.noStream index m.streams.length)

/-- Part of a stream, to its end where no count is given. -/
def read (m : Msf) (index position : Nat) (count : Option Nat) : Except MsfError Bytes := do
  let s ← m.stream index
  readFrom m.access m.file m.pageSize s position (count.getD s.size)

/-- The whole content of a stream. -/
def streamData (m : Msf) (index : Nat) : Except MsfError Bytes := m.read index 0 none

end Msf
end KernelProfile
