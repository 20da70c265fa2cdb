import Udm.Library.Chunk
import Udm.DataFactory

/-!
# Reading the source

How a sender goes through its source file. A data capsule holds a chunk of
`PAYLOAD` bytes, or what remains of the file; the end of the file is found by a
short read. When the file ends with a full chunk, no read is short, and nothing
is pushed when the end is found (`Reads.buffer_of_exhausted`); the same happens
after `MAX_CHUNKS` chunks, when the `int` counter `curSize` becomes negative.

`Reads f n fac` says that the factory has read `n` chunks of the file. It is kept
by a read (`Reads.updateDataSource`), with one chunk more, and by the preparation of
a control capsule. Once the end of the file was found, all it says of the factory is
`Used`: that is what the next transfer on the same factory starts from, and what
`Used.updateDataSource` keeps, whatever file it is then given.
-/

namespace Udm

/-- The most bytes of the source a capsule holds. -/
abbrev PAYLOAD : ℕ := CHUNK - HEADER_SPACE

/-- The number of chunks after which `curSize` overflows. -/
abbrev MAX_CHUNKS : ℕ := 43704

/-- A source file. Its size is an `off_t`. -/
structure File where
  /-- The contents. -/
  bytes : List Byte
  length_lt : bytes.length < 2 ^ 63

namespace File

/-- The source of a sender. -/
def source (f : File) : DataSource :=
  { fmode := .IN, fileSize := f.bytes.length, fs := { content := f.bytes } }

/-- The chunk a data capsule holds. -/
def chunk (f : File) (k : ℕ) : List Byte := Udm.chunk PAYLOAD f.bytes k

/-- The file ends in the chunk `k`. -/
def EndsIn (f : File) (k : ℕ) : Prop :=
  k * PAYLOAD < f.bytes.length ∧ f.bytes.length < (k + 1) * PAYLOAD

instance (f : File) (k : ℕ) : Decidable (f.EndsIn k) := inferInstanceAs (Decidable (_ ∧ _))

/-- The file ends in one chunk at most. -/
theorem endsIn_unique {f : File} {j k : ℕ} (hj : f.EndsIn j) (hk : f.EndsIn k) : j = k := by
  have hjk : j * PAYLOAD < (k + 1) * PAYLOAD := hj.1.trans hk.2
  have hkj : k * PAYLOAD < (j + 1) * PAYLOAD := hk.1.trans hj.2
  have := Nat.lt_of_mul_lt_mul_right hjk
  have := Nat.lt_of_mul_lt_mul_right hkj
  omega

/-- The file ends in the chunk `k` and not with a full one. -/
theorem endsIn_iff {f : File} : (∃ k < MAX_CHUNKS, f.EndsIn k) ↔
    ¬PAYLOAD ∣ f.bytes.length ∧ f.bytes.length < MAX_CHUNKS * PAYLOAD := by
  constructor
  · rintro ⟨k, hk, hlow, hhigh⟩
    refine ⟨?_, hhigh.trans_le (Nat.mul_le_mul_right _ hk)⟩
    rintro ⟨j, hj⟩
    rw [hj, Nat.mul_comm PAYLOAD] at hlow hhigh
    have := Nat.lt_of_mul_lt_mul_right hlow
    have := Nat.lt_of_mul_lt_mul_right hhigh
    omega
  · rintro ⟨hdvd, hlt⟩
    have hpos : 0 < PAYLOAD := by decide
    refine ⟨f.bytes.length / PAYLOAD, (Nat.div_lt_iff_lt_mul hpos).2 hlt, ?_, ?_⟩
    · refine lt_of_le_of_ne (Nat.div_mul_le_self _ _) fun heq => hdvd ?_
      exact Dvd.intro_left _ heq
    · exact Nat.lt_mul_of_div_lt (Nat.lt_succ_self _) hpos

/-- The number of chunks the file needs. -/
def chunks (f : File) : ℕ := f.bytes.length ⌈/⌉ PAYLOAD

/-- The sender has nothing to send after `n` chunks. -/
def Exhausted (f : File) (n : ℕ) : Prop := n * PAYLOAD = f.bytes.length ∨ n = MAX_CHUNKS

end File

/-- Up to `MAX_CHUNKS` chunks, `curSize` is the number of bytes. -/
theorem sizeT_int32_of_lt {n : ℕ} (h : n < MAX_CHUNKS) :
    sizeT (int32 (n * PAYLOAD : ℕ)) = n * PAYLOAD := by
  have hsmall : n * PAYLOAD < 2 ^ 31 := by
    have : n * PAYLOAD ≤ 43703 * PAYLOAD := Nat.mul_le_mul_right _ (Nat.le_of_lt_succ h)
    exact lt_of_le_of_lt this (by decide)
  rw [int32_of_mem (by omega) (by omega), sizeT_natCast (by omega)]

/-- The size of a chunk and its header. -/
theorem sizeT_add_header {n : ℕ} (h : n ≤ PAYLOAD) : sizeT (n + HEADER_SPACE) = n + HEADER_SPACE := by
  have hlt : n + HEADER_SPACE < 2 ^ 64 :=
    lt_of_le_of_lt (Nat.add_le_add_right h HEADER_SPACE) (by decide)
  exact_mod_cast sizeT_natCast hlt

/-! ## Reading the source -/

/-- What the end of a file leaves a factory as: the flag stays set, and the size of the
    next chunks that of the last one, which is less than what was read. -/
structure DataFactory.Used (fac : DataFactory) : Prop where
  /-- No chunk waits to be sent. -/
  buffer : fac.buffer = []
  /-- The end of a file was found. -/
  fin : fac.fin = true
  /-- The read was short, and has set the size of the chunks. -/
  short : fac.chunkSize < CHUNK
  /-- A chunk of that size was counted. -/
  counted : fac.chunkSize - HEADER_SPACE ≤ sizeT fac.curSize
  /-- The counter is an `int`. -/
  int : -2 ^ 31 ≤ fac.curSize ∧ fac.curSize < 2 ^ 31

/-- The factory has read the first `n` chunks of the file `f`. -/
structure Reads (f : File) (n : ℕ) (fac : DataFactory) : Prop where
  /-- No chunk waits to be sent. -/
  buffer : fac.buffer = []
  /-- The file is open for reading. -/
  fmode : fac.sourceData.fmode = .IN
  /-- Its size is the one it was opened with. -/
  fileSize : fac.sourceData.fileSize = f.bytes.length
  /-- Nobody writes to it. -/
  content : fac.sourceData.fs.content = f.bytes
  /-- There are no more: with one, `curSize` has overflowed. -/
  le : n ≤ MAX_CHUNKS
  /-- No read was short. -/
  good : fac.fin = false → fac.sourceData.fs.failed = false
  /-- The stream is behind the last chunk. -/
  pos : fac.fin = false → fac.sourceData.fs.pos = n * PAYLOAD
  /-- The last chunk was a whole one. -/
  inside : fac.fin = false → n * PAYLOAD ≤ f.bytes.length
  /-- `curSize` counts the bytes, as far as an `int` does. -/
  curSize : fac.fin = false → fac.curSize = int32 (n * PAYLOAD : ℕ)
  chunkSize : fac.fin = false → fac.chunkSize = CHUNK
  /-- The end of the file is in the last chunk. -/
  last : fac.fin = true → ∃ k, n = k + 1 ∧ f.EndsIn k
  used : fac.fin = true → fac.Used

/-- Of a file that was just opened, nothing was read. -/
theorem reads_source (f : File) : Reads f 0 { sourceData := f.source } := by
  constructor <;> simp [File.source, int32]

namespace Reads

variable {f : File} {n : ℕ} {fac : DataFactory}

/-- Preparing a control capsule leaves the source and its queue as they were. -/
theorem control (h : Reads f n fac) (heap : Block Byte) (hdrid : BitVec 32) :
    Reads f n (fac.makeChunkforRx heap hdrid).2.tryPop.2 where
  buffer := by simp [h.buffer]
  fmode := h.fmode
  fileSize := h.fileSize
  content := h.content
  le := h.le
  good := h.good
  pos := h.pos
  inside := h.inside
  curSize := h.curSize
  chunkSize := h.chunkSize
  last := h.last
  used := fun hf => ⟨by simp [h.buffer], hf, (h.used hf).short, (h.used hf).counted, (h.used hf).int⟩

/-- No more chunks are read than the file needs. -/
theorem le_chunks (h : Reads f n fac) : n ≤ f.chunks := by
  have hpos : 0 < PAYLOAD := by decide
  rcases Nat.eq_zero_or_pos n with rfl | hn
  · exact Nat.zero_le _
  -- Before the last of them, the file goes on.
  have hlt : PAYLOAD * (n - 1) < f.bytes.length := by
    cases hfin : fac.fin with
    | false =>
      have hle := h.inside hfin
      have hmul := Nat.sub_one_mul n PAYLOAD
      rw [Nat.mul_comm]
      have hge : PAYLOAD ≤ n * PAYLOAD := Nat.le_mul_of_pos_left _ hn
      omega
    | true =>
      obtain ⟨k, rfl, hend⟩ := h.last hfin
      rw [Nat.mul_comm]
      exact hend.1
  by_contra hlt'
  exact absurd ((ceilDiv_le_iff_le_mul hpos).1 (show f.chunks ≤ n - 1 by omega)) (not_le.2 hlt)

/-- What `curSize` is compared as. -/
theorem fileSize_le_sizeT_iff (h : Reads f n fac) (hfin : fac.fin = false) :
    fac.sourceData.fileSize ≤ sizeT fac.curSize ↔ f.Exhausted n := by
  have hlt := f.length_lt
  have hle := h.inside hfin
  have hn := h.le
  rw [h.fileSize, h.curSize hfin, File.Exhausted]
  rcases Nat.lt_or_ge n MAX_CHUNKS with hmax | hmax
  · rw [sizeT_int32_of_lt hmax]
    omega
  · obtain rfl : n = MAX_CHUNKS := by omega
    have hneg : int32 (MAX_CHUNKS * PAYLOAD : ℕ) < 0 := by decide
    have := le_sizeT_of_neg hneg (le_int32 _)
    exact iff_of_true (by omega) (.inr rfl)

/-- The end of the file has been found before: nothing is read. -/
theorem buffer_of_exhausted (h : Reads f n fac) (hfin : fac.fin = false) (hex : f.Exhausted n)
    (heap : Block Byte) : (fac.updateDataSource heap).buffer = [] := by
  have hle := (h.fileSize_le_sizeT_iff hfin).2 hex
  rw [DataFactory.updateDataSource, DataFactory.inputFromSource, h.fmode]
  simp only [hle, if_true]
  exact h.buffer

/-- The chunk that is read next is not empty. -/
theorem length_chunk_pos (h : Reads f n fac) (hfin : fac.fin = false) (hex : ¬f.Exhausted n) :
    0 < (f.chunk n).length := by
  have hlt : n * PAYLOAD < f.bytes.length :=
    lt_of_le_of_ne (h.inside hfin) fun e => hex (.inl e)
  rw [File.chunk, length_chunk]
  exact lt_min (by decide) (by omega)

/-- A chunk is not longer than a payload. -/
theorem length_chunk_le (f : File) (n : ℕ) : (f.chunk n).length ≤ PAYLOAD :=
  List.length_take_le _ _

/-- The next chunk is short exactly if the file ends in it. -/
theorem length_chunk_lt_iff (h : Reads f n fac) (hfin : fac.fin = false) (hex : ¬f.Exhausted n) :
    (f.chunk n).length < PAYLOAD ↔ f.EndsIn n := by
  have hlt : n * PAYLOAD < f.bytes.length :=
    lt_of_le_of_ne (h.inside hfin) fun e => hex (.inl e)
  rw [File.chunk, Udm.length_chunk_lt_iff (by decide), File.EndsIn]
  exact (and_iff_right hlt).symm

/-- The stream gives the next chunk, and fails if it is short. -/
theorem readStream_chunk (h : Reads f n fac) (hfin : fac.fin = false) :
    ∃ fs : Fstream, DataFactory.readStream fac.sourceData.fs (CHUNK - HEADER_SPACE) =
        (((f.chunk n).length : ℤ), f.chunk n, fs) ∧
      fs.content = f.bytes ∧ fs.pos = n * PAYLOAD + (f.chunk n).length ∧
      fs.failed = decide ((f.chunk n).length < PAYLOAD) := by
  have hle := length_chunk_le f n
  have hpay : PAYLOAD < 2 ^ 31 := by decide
  have hamt : int32 (f.chunk n).length = (f.chunk n).length :=
    int32_of_mem (by omega) (by omega)
  have hread : fac.sourceData.fs.read PAYLOAD = (f.chunk n,
      { content := f.bytes, pos := n * PAYLOAD + (f.chunk n).length,
        gcount := (f.chunk n).length, failed := decide ((f.chunk n).length < PAYLOAD) }) := by
    simp only [Fstream.read, h.good hfin, Bool.false_eq_true, if_false, h.content, h.pos hfin]
    rfl
  refine ⟨(fac.sourceData.fs.read PAYLOAD).2, ?_, by rw [hread]; exact ⟨rfl, rfl, rfl⟩⟩
  simp only [DataFactory.readStream, hread, DataFactory.getAmountRead, add_sub_cancel_right, hamt]

/-- After the next chunk, the counter has gone past its size, or overflowed. -/
theorem length_chunk_le_sizeT (h : Reads f n fac) (hfin : fac.fin = false)
    (hmax : n + 1 ≤ MAX_CHUNKS) :
    (f.chunk n).length ≤ sizeT (int32 (fac.curSize + ((f.chunk n).length : ℤ))) := by
  have hlow : n * PAYLOAD ≤ 43703 * PAYLOAD :=
    Nat.mul_le_mul_right _ (Nat.le_of_succ_le_succ hmax)
  have hsmall : 43703 * PAYLOAD + PAYLOAD < 2 ^ 32 := by decide
  rw [h.curSize hfin, int32_add, ← Nat.cast_add]
  exact le_sizeT_int32 (Nat.le_add_left _ _)
    (lt_of_le_of_lt (Nat.add_le_add hlow (length_chunk_le f n)) hsmall)

/-- The next chunk is read into a new buffer, and the factory has then read one
    chunk more. -/
theorem updateDataSource (h : Reads f n fac) (hfin : fac.fin = false) (hex : ¬f.Exhausted n)
    (heap : Block Byte) :
    ∃ b : MemBuff, (fac.updateDataSource heap).buffer = [b] ∧
      b.data.header = { capSize := BitVec.ofNat 16 (f.chunk n).length } ∧
      b.data.body.load HEADER_SPACE (f.chunk n).length = f.chunk n ∧
      (fac.updateDataSource heap).fin = decide (f.EndsIn n) ∧
      Reads f (n + 1) (fac.updateDataSource heap).tryPop.2 := by
  have hnot : ¬fac.sourceData.fileSize ≤ sizeT fac.curSize :=
    fun hle => hex ((h.fileSize_le_sizeT_iff hfin).1 hle)
  have hmax : n + 1 ≤ MAX_CHUNKS := lt_of_le_of_ne h.le fun e => hex (.inr e)
  have hpos := h.length_chunk_pos hfin hex
  have hle := length_chunk_le f n
  have hpay : PAYLOAD < 2 ^ 31 := by decide
  have hshort := h.length_chunk_lt_iff hfin hex
  have hsize : sizeT (f.chunk n).length = (f.chunk n).length := sizeT_natCast (by omega)
  obtain ⟨fs, hread, hcontent, hpos', hfailed⟩ := h.readStream_chunk hfin
  rw [DataFactory.updateDataSource, DataFactory.inputFromSource, h.fmode]
  simp only [if_neg hnot, h.chunkSize hfin, hread, hsize]
  have hcap : BitVec.ofInt 16 ((f.chunk n).length : ℤ) = BitVec.ofNat 16 (f.chunk n).length := by
    simp
  -- Either the read is short, and finds the end of the file, or the next chunk follows it.
  by_cases hend : f.EndsIn n
  · rw [if_pos (hshort.2 hend), hcap]
    refine ⟨_, by simp [h.buffer]; rfl, rfl, Block.load_store _ _ _, by simp [hend], ?_⟩
    have hcount := h.length_chunk_le_sizeT hfin hmax
    have hlt := hshort.2 hend
    have hroom : PAYLOAD + HEADER_SPACE = CHUNK := rfl
    have hheader := sizeT_add_header hle
    constructor
    case used =>
      refine fun _ => ⟨by simp [h.buffer], rfl, ?_, ?_, le_int32 _, int32_lt _⟩
      · show sizeT ((f.chunk n).length + HEADER_SPACE) < CHUNK
        rw [hheader]
        omega
      · show sizeT ((f.chunk n).length + HEADER_SPACE) - HEADER_SPACE ≤ _
        rw [hheader, Nat.add_sub_cancel]
        exact hcount
    all_goals simp [h.buffer, h.fmode, h.fileSize, hcontent, hmax, hend]
  · rw [if_neg (fun hlt => hend (hshort.1 hlt)), hcap]
    have hfull : (f.chunk n).length = PAYLOAD :=
      le_antisymm hle (not_lt.1 fun hlt => hend (hshort.1 hlt))
    refine ⟨_, by simp [h.buffer]; rfl, rfl, Block.load_store _ _ _, by simp [hend, hfin], ?_⟩
    have hnext : n * PAYLOAD + (f.chunk n).length = (n + 1) * PAYLOAD := by
      rw [hfull, Nat.succ_mul]
    have hinside : (n + 1) * PAYLOAD ≤ f.bytes.length := by
      by_contra hlt
      exact hend ⟨lt_of_le_of_ne (h.inside hfin) fun e => hex (.inl e), not_le.1 hlt⟩
    have hcur : int32 (fac.curSize + ((f.chunk n).length : ℤ)) = int32 (((n + 1) * PAYLOAD : ℕ) : ℤ) := by
      rw [h.curSize hfin, int32_add, ← Nat.cast_add, hnext]
    constructor
    case good => simp [hfailed, hfull]
    case pos => simp [hpos', hnext]
    case inside => exact fun _ => hinside
    case curSize => exact fun _ => hcur
    all_goals simp [h.buffer, h.fmode, h.fileSize, hcontent, hmax, hfin, h.chunkSize hfin]

end Reads

/-! ## A factory used before -/

/-- A read gives no more than it is asked for, and tells how much it gave. -/
theorem DataFactory.readStream_eq (fs : Fstream) {n : ℕ} (hn : n < 2 ^ 31) :
    ∃ (got : List Byte) (fs' : Fstream), readStream fs n = ((got.length : ℤ), got, fs') ∧
      got.length ≤ n := by
  have hgot : (fs.read n).1.length ≤ n ∧ (fs.read n).2.gcount = (fs.read n).1.length := by
    rw [Fstream.read]
    split
    · exact ⟨Nat.zero_le _, rfl⟩
    · exact ⟨List.length_take_le _ _, rfl⟩
  have hamt : int32 ((fs.read n).1.length : ℤ) = (fs.read n).1.length :=
    int32_of_mem (by omega) (by omega)
  refine ⟨(fs.read n).1, (fs.read n).2, ?_, hgot.1⟩
  simp only [readStream, getAmountRead, hgot.2, add_sub_cancel_right, hamt]

namespace DataFactory.Used

variable {fac : DataFactory}

/-- The preparation of a control capsule does not touch what is used up. -/
theorem control (h : fac.Used) (heap : Block Byte) (hdrid : BitVec 32) :
    (fac.makeChunkforRx heap hdrid).2.tryPop.2.Used :=
  ⟨by simp [h.buffer], h.fin, h.short, h.counted, h.int⟩

/-- What is read of the next file, if anything, is shorter than its first chunk. -/
theorem updateDataSource (h : fac.Used) (hmode : fac.sourceData.fmode = .IN)
    (hsize : fac.sourceData.fileSize < 2 ^ 63) (heap : Block Byte) :
    (fac.updateDataSource heap).buffer = [] ∨
    ∃ (b : MemBuff) (payload : List Byte), (fac.updateDataSource heap).buffer = [b] ∧
      b.data.header = { capSize := BitVec.ofNat 16 payload.length } ∧
      b.data.body.load HEADER_SPACE payload.length = payload ∧
      payload.length < PAYLOAD ∧ payload.length < fac.sourceData.fileSize ∧
      (fac.updateDataSource heap).tryPop.2.Used ∧
      (fac.updateDataSource heap).sourceData.fmode = .IN ∧
      (fac.updateDataSource heap).sourceData.fileSize = fac.sourceData.fileSize := by
  by_cases hle : fac.sourceData.fileSize ≤ sizeT fac.curSize
  · left
    rw [DataFactory.updateDataSource, inputFromSource, hmode]
    simp only [hle, if_true]
    exact h.buffer
  right
  -- Something is read, so the counter has not overflowed.
  have hcur : 0 ≤ fac.curSize := by
    by_contra hneg
    have := le_sizeT_of_neg (not_le.1 hneg) h.int.1
    omega
  have hroom : PAYLOAD + HEADER_SPACE = CHUNK := rfl
  have hchunk : CHUNK < 2 ^ 31 := by decide
  have hpayload : 0 < PAYLOAD := by decide
  have hshort := h.short
  have hcounted := h.counted
  obtain ⟨got, fs, hread, hgot⟩ := @DataFactory.readStream_eq fac.sourceData.fs
    (fac.chunkSize - HEADER_SPACE) (by omega)
  have hcurSize : sizeT fac.curSize = fac.curSize.toNat := sizeT_of_nonneg hcur (by have := h.int.2; omega)
  have hsizeT : sizeT (got.length : ℤ) = got.length := sizeT_natCast (by omega)
  have hheader := sizeT_add_header (show got.length ≤ PAYLOAD by omega)
  have hcount : got.length ≤ sizeT (int32 (fac.curSize + (got.length : ℤ))) ∧
      fac.chunkSize - HEADER_SPACE ≤ sizeT (int32 (fac.curSize + (got.length : ℤ))) := by
    have hsum : fac.curSize + (got.length : ℤ) = (fac.curSize.toNat + got.length : ℕ) := by
      push_cast
      rw [Int.toNat_of_nonneg hcur]
    have := h.int.2
    rw [hsum]
    constructor <;> exact le_sizeT_int32 (by omega) (by omega)
  have hcap : BitVec.ofInt 16 (got.length : ℤ) = BitVec.ofNat 16 got.length := by simp
  rw [DataFactory.updateDataSource, inputFromSource, hmode]
  simp only [if_neg hle, hread, hsizeT, hcap]
  -- A short read makes the chunks shorter again, a full one leaves their size.
  by_cases hend : got.length < fac.chunkSize - HEADER_SPACE
  · rw [if_pos hend]
    refine ⟨_, got, by simp [h.buffer]; rfl, rfl, Block.load_store _ _ _, by omega, by omega,
      ⟨by simp [h.buffer], rfl, ?_, ?_, le_int32 _, int32_lt _⟩, by simp [hmode], by simp⟩
    · show sizeT (got.length + HEADER_SPACE) < CHUNK
      rw [hheader]
      omega
    · show sizeT (got.length + HEADER_SPACE) - HEADER_SPACE ≤ _
      rw [hheader, Nat.add_sub_cancel]
      exact hcount.1
  · rw [if_neg hend]
    exact ⟨_, got, by simp [h.buffer]; rfl, rfl, Block.load_store _ _ _, by omega, by omega,
      ⟨by simp [h.buffer], h.fin, h.short, hcount.2, le_int32 _, int32_lt _⟩, by simp [hmode], by simp⟩

end DataFactory.Used

end Udm
