import Udm.Capsule

/-!
# Data factories

A `DataFactory` (`datafactory.h`) holds the queue of buffers of one direction of
a transfer and its source (a file being read) or sink (a file being written).

* `inputFromSource` reads the next chunk of the source into a new buffer, and
  detects the end of the file, by a short read or by its progress counter;
* `fetchChunk` takes the next buffer to send;
* `makeChunkforRx` pushes an empty buffer, which a later `fill` fills in place;
* `write2Source` appends the payload of a buffer to the sink.

The queue `threadsafe_queue<memBuff>` is the list of its elements, oldest first.
The operating system's part (what a write does, the contents of memory that
`malloc` returns) is an argument of the operations.
-/

namespace Udm

/-! ## Streams -/

/-- What the operating system makes of a stream write: all of it, or a failure
    after having appended some first bytes. -/
inductive WriteOutcome
  | written
  | failed (appended : ℕ)
  deriving DecidableEq, Repr

/-- `std::fstream`: the bytes of the file, how far it was read, the count of the
    last read, and whether the stream is in a failed state. -/
structure Fstream where
  /-- The bytes of the file. -/
  content : List Byte := []
  /-- How many of them were read. -/
  pos : ℕ := 0
  /-- What `gcount` returns. -/
  gcount : ℕ := 0
  /-- The stream is in a failed state, in which it neither reads nor writes. -/
  failed : Bool := false

namespace Fstream

/-- `fs.read(buff, n)`: the next `n` bytes, or those that remain, in which case
    the stream fails. A failed stream gives none. -/
def read (fs : Fstream) (n : ℕ) : List Byte × Fstream :=
  if fs.failed then ([], { fs with gcount := 0 })
  else
    let got := (fs.content.drop fs.pos).take n
    (got, { fs with pos := fs.pos + got.length, gcount := got.length,
                    failed := decide (got.length < n) })

/-- `fs.tellp()`: the end of the file, as writes only append, or `-1` if the
    stream failed. -/
def tellp (fs : Fstream) : ℤ := if fs.failed then -1 else fs.content.length

/-- A `fs.write(buff, n)` appends its `n` bytes and leaves the stream good. A
    failed stream takes no bytes, and neither does one asked for a negative
    count: `sputn` then takes `0 ≠ n` bytes. -/
def accepts (fs : Fstream) (o : WriteOutcome) (n : ℤ) : Bool :=
  !fs.failed && decide (0 ≤ n) && decide (o = .written)

/-- `fs.write(buff, n)`, and `fs.flush()`. -/
def write (fs : Fstream) (o : WriteOutcome) (buff : Block Byte) (n : ℤ) : Fstream :=
  if fs.accepts o n then { fs with content := fs.content ++ buff.load 0 n.toNat }
  else
    let appended :=
      match o with
      | .written => 0
      | .failed k => if fs.failed then 0 else min k (n.toNat - 1)
    { fs with content := fs.content ++ buff.load 0 appended, failed := true }

end Fstream

/-- `DataSource`. A source (`IN`) knows its file size; a sink (`OUT`) does not. -/
structure DataSource where
  fmode : SourceMode
  fileSize : ℕ := 0
  fs : Fstream

/-! ## Factories -/

/-- `DataFactory`. Buffers are numbered as they are allocated (`allocated`). The
    `sourceData` of a factory without source nor sink is not used. -/
structure DataFactory where
  /-- The queue of buffers, through which both directions go. -/
  buffer : List MemBuff := []
  allocated : ℕ := 0
  /-- The end of the file set was found, or received. -/
  fin : Bool := false
  allocSize : ℤ := 0
  /-- The progress counter, in the bytes that were read or written. -/
  curSize : ℤ := 0
  curPos : ℤ := 0
  curWritePos : ℤ := 0
  /-- The size of the next buffer, less after a short read. -/
  chunkSize : ℕ := CHUNK
  sourceData : DataSource := { fmode := .OUT, fs := {} }

namespace DataFactory

/-- `getAmountRead`. -/
def getAmountRead (amtBefore amtAfter : ℤ) : ℤ := int32 (amtAfter - amtBefore)

/-- `readStream`: the amount read, the bytes read and the stream. -/
def readStream (fs : Fstream) (size2Read : ℕ) : ℤ × List Byte × Fstream :=
  let gcBefore : ℤ := fs.gcount
  let (got, fs) := fs.read size2Read
  let gcAfter : ℤ := fs.gcount + gcBefore
  (getAmountRead gcBefore gcAfter, got, fs)

/-- `writeStream`: the amount written (as `tellp` tells) and the sink. -/
def writeStream (o : WriteOutcome) (data : DataSource) (buff : Block Byte) (size2Write : ℤ) :
    ℤ × DataSource :=
  let gcBefore := int32 data.fs.tellp
  let fs := data.fs.write o buff size2Write
  let gcAfter := if fs.tellp < 0 then int32 (data.fileSize - 1) else int32 fs.tellp
  (getAmountRead gcBefore gcAfter, { data with fs })

variable (fac : DataFactory)

/-- `buffer.push`, of a buffer at a new address. -/
@[simps] def push (size : ℤ) (cap : Capsule) : DataFactory :=
  { fac with
    buffer := fac.buffer ++ [{ addr := fac.allocated, size, data := cap }]
    allocated := fac.allocated + 1 }

/-- `buffer.try_pop`. -/
@[simps] def tryPop : Option MemBuff × DataFactory :=
  (fac.buffer.head?, { fac with buffer := fac.buffer.tail })

/-- `fetchChunk`: the next buffer; without one the program exits. -/
def fetchChunk : Option (MemBuff × DataFactory) :=
  fac.tryPop.1.map fun chunk => (chunk, fac.tryPop.2)

/-- `makeChunkforRx`: pushing a buffer whose body is the memory `heap` that
    `malloc` returns, with the capsule id `hdrid` of `prepareMemBuff`. The new
    buffer is the last one of the queue. -/
@[simps] def makeChunkforRx (heap : Block Byte) (hdrid : BitVec 32) : MemBuff × DataFactory :=
  let cap : Capsule := { header := { capid := hdrid.setWidth 16 }, body := heap }
  ({ addr := fac.allocated, size := 0, data := cap }, fac.push 0 cap)

/-- Filling in place the buffer that was pushed last. -/
@[simps] def fill (b : MemBuff) : DataFactory := { fac with buffer := fac.buffer.dropLast ++ [b] }

/-- `_inputFromSource`. -/
def inputFromSource (heap : Block Byte) : DataFactory :=
  match fac.sourceData.fmode with
  | .OUT => fac
  | .IN =>
    if fac.sourceData.fileSize ≤ sizeT fac.curSize then { fac with fin := true }
    else
      let bodylen := fac.chunkSize
      let (readSize, got, fs) := readStream fac.sourceData.fs (bodylen - HEADER_SPACE)
      let cap : Capsule :=
        { header := { capSize := BitVec.ofInt 16 readSize }, body := heap.store HEADER_SPACE got }
      let fac := if sizeT readSize < bodylen - HEADER_SPACE
        then { fac with chunkSize := sizeT (readSize + HEADER_SPACE), fin := true } else fac
      let fac := fac.push (int32 (readSize + HEADER_SPACE)) cap
      { fac with
        curSize := int32 (fac.curSize + readSize)
        sourceData := { fac.sourceData with fs } }

/-- `updateDataSource`. -/
def updateDataSource (heap : Block Byte) : DataFactory := fac.inputFromSource heap

/-- The length `write2Source` hands to the stream for a buffer of size
    `amt2Write`: a `size_t` difference converted to `int`. -/
def writeLength (amt2Write : ℤ) : ℤ := int32 (amt2Write - HEADER_SPACE)

/-- `write2Source`. -/
def write2Source (o : WriteOutcome) (buf2Write : MemBuff) (amt2Write : ℤ) : DataFactory :=
  match fac.sourceData.fmode with
  | .IN => fac
  | .OUT =>
    let (amtWritten, data) :=
      writeStream o fac.sourceData buf2Write.data.body (writeLength amt2Write)
    { fac with
      sourceData := data
      curWritePos := int32 (fac.curWritePos + amtWritten + HEADER_SPACE) }

/-! ## What a write changes -/

section Write

variable (o : WriteOutcome) (b : MemBuff) (n : ℤ)

@[simp] theorem buffer_write2Source : (fac.write2Source o b n).buffer = fac.buffer := by
  rw [write2Source]
  split <;> rfl

@[simp] theorem allocated_write2Source : (fac.write2Source o b n).allocated = fac.allocated := by
  rw [write2Source]
  split <;> rfl

@[simp] theorem fin_write2Source : (fac.write2Source o b n).fin = fac.fin := by
  rw [write2Source]
  split <;> rfl

@[simp] theorem curSize_write2Source : (fac.write2Source o b n).curSize = fac.curSize := by
  rw [write2Source]
  split <;> rfl

@[simp] theorem chunkSize_write2Source : (fac.write2Source o b n).chunkSize = fac.chunkSize := by
  rw [write2Source]
  split <;> rfl

@[simp] theorem fmode_write2Source :
    (fac.write2Source o b n).sourceData.fmode = fac.sourceData.fmode := by
  rw [write2Source]
  split <;> rfl

variable {fac} in
theorem fs_write2Source (h : fac.sourceData.fmode = .OUT) :
    (fac.write2Source o b n).sourceData.fs =
      fac.sourceData.fs.write o b.data.body (writeLength n) := by
  simp [write2Source, h, writeStream]

end Write

end DataFactory

/-- A write the stream accepts appends all its bytes. -/
theorem Fstream.write_of_accepts {fs : Fstream} {o : WriteOutcome} {n : ℤ}
    (h : fs.accepts o n) (buff : Block Byte) :
    fs.write o buff n = { fs with content := fs.content ++ buff.load 0 n.toNat } := by
  simp [Fstream.write, h]

theorem Fstream.accepts_iff {fs : Fstream} {o : WriteOutcome} {n : ℤ} :
    fs.accepts o n ↔ fs.failed = false ∧ 0 ≤ n ∧ o = .written := by
  simp [accepts, and_assoc]

theorem DataFactory.writeLength_of_le {n : ℤ} (h : HEADER_SPACE ≤ n) (h' : n < 2 ^ 31) :
    writeLength n = n - HEADER_SPACE := int32_of_mem (by omega) (by omega)

end Udm
