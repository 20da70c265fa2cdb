import Udm.Source

/-!
# The progress counter

`_inputFromSource` reads on until `fileSize <= (size_t)curSize`, where `curSize` counts
what was read in an `int`. How far this tells the end of the file is a matter of numbers
(`tracksProgress_iff_counts`): after `n` chunks the counter is `int32 (n * PAYLOAD)`, and
it is compared after a sign extension.

Up to `MAX_CHUNKS * PAYLOAD` bytes the counter only overflows when the last bytes have
been read, and is then compared as a large number. A larger file is not read to its end:
after `MAX_CHUNKS` chunks the negative counter is above its size, or, for a size among the
`2 ^ 31` largest ones, the counter gets to `-2` later on. The one exception is the size
`2 ^ 64 - 1`, as the counter is even until the last read.
-/

namespace Udm

namespace DataFactory

/-- A new factory with the source `bytes`. -/
def ofSource (bytes : List Byte) : DataFactory :=
  { sourceData := { fmode := .IN, fileSize := bytes.length, fs := { content := bytes } } }

/-- The factory after `n` calls of `_inputFromSource`, which get the memory `heap`. -/
def calls (bytes : List Byte) (heap : ℕ → Block Byte) : ℕ → DataFactory
  | 0 => ofSource bytes
  | n + 1 => (calls bytes heap n).inputFromSource (heap n)

/-- The payload of a buffer. -/
def payload (b : MemBuff) : List Byte := b.data.body.load HEADER_SPACE b.data.header.capSize.toNat

/-- The bytes in the queue. -/
def queued (fac : DataFactory) : List Byte := fac.buffer.flatMap payload

/-- What `_inputFromSource` takes for the end of the file. -/
def AtEnd (fac : DataFactory) : Prop := fac.sourceData.fileSize ≤ sizeT fac.curSize

/-- The end of the file is found exactly when all of it has been queued. -/
def TracksProgress (bytes : List Byte) (heap : ℕ → Block Byte) : Prop :=
  ∀ n, (calls bytes heap n).AtEnd ↔ (calls bytes heap n).queued = bytes

/-- The counter tells the end of a file of `size` bytes: after full chunks, and after the
    last read. -/
structure Counts (size : ℕ) : Prop where
  /-- Between two chunks, the counter is at the size only if the file is read to its end. -/
  chunks : ∀ n, n * PAYLOAD ≤ size → (size ≤ sizeT (int32 (n * PAYLOAD : ℕ)) ↔ n * PAYLOAD = size)
  /-- After the last read, it is. -/
  last : size ≤ sizeT (int32 size)

/-! ## Reading -/

/-- The factory has read `n` full chunks. -/
structure Reading (bytes : List Byte) (n : ℕ) (fac : DataFactory) : Prop where
  /-- The file is open for reading. -/
  fmode : fac.sourceData.fmode = .IN
  /-- Its size is the one it was opened with. -/
  fileSize : fac.sourceData.fileSize = bytes.length
  /-- Nobody writes to it. -/
  content : fac.sourceData.fs.content = bytes
  /-- No read was short. -/
  good : fac.sourceData.fs.failed = false
  /-- The stream is behind the last chunk. -/
  pos : fac.sourceData.fs.pos = n * PAYLOAD
  /-- The last chunk was a whole one. -/
  inside : n * PAYLOAD ≤ bytes.length
  /-- The counter is an `int`. -/
  curSize : fac.curSize = int32 (n * PAYLOAD : ℕ)
  /-- The chunks are of the full size. -/
  chunkSize : fac.chunkSize = CHUNK
  /-- What was read is in the queue, in its order. -/
  queued : fac.queued = bytes.take (n * PAYLOAD)

/-- The factory has read all the file, the last time less than a chunk. -/
structure Finished (bytes : List Byte) (fac : DataFactory) : Prop where
  fmode : fac.sourceData.fmode = .IN
  fileSize : fac.sourceData.fileSize = bytes.length
  /-- The counter has counted every byte, as an `int`. -/
  curSize : fac.curSize = int32 bytes.length
  /-- All of the file is in the queue. -/
  queued : fac.queued = bytes

variable {bytes : List Byte} {heap : ℕ → Block Byte} {n : ℕ} {fac : DataFactory}

theorem reading_ofSource (bytes : List Byte) : Reading bytes 0 (ofSource bytes) := by
  constructor <;> simp [ofSource, DataFactory.queued, int32]

/-- At what it takes for the end, a factory reads nothing. -/
theorem inputFromSource_of_atEnd (hmode : fac.sourceData.fmode = .IN) (h : fac.AtEnd)
    (m : Block Byte) : fac.inputFromSource m = { fac with fin := true } := by
  rw [AtEnd] at h
  simp only [inputFromSource, hmode, h, if_true]

/-- What a read of `got` changes. -/
structure Gets (fac fac' : DataFactory) (got : List Byte) (fs : Fstream) : Prop where
  /-- The stream goes on. -/
  source : fac'.sourceData = { fac.sourceData with fs }
  /-- The counter counts what was read. -/
  curSize : fac'.curSize = int32 (fac.curSize + got.length)
  /-- It is at the end of the queue. -/
  queued : fac'.queued = fac.queued ++ got
  /-- After a full read, the chunks are of the size they were. -/
  chunkSize : fac.chunkSize - HEADER_SPACE ≤ got.length → fac'.chunkSize = fac.chunkSize

/-- Before it finds the end, a factory reads into a new buffer. -/
theorem inputFromSource_gets (hmode : fac.sourceData.fmode = .IN) (h : ¬fac.AtEnd) (m : Block Byte)
    {got : List Byte} {fs : Fstream}
    (hread : readStream fac.sourceData.fs (fac.chunkSize - HEADER_SPACE) = ((got.length : ℤ), got, fs))
    (hlen : got.length < 2 ^ 16) : Gets fac (fac.inputFromSource m) got fs := by
  have hsize : sizeT got.length = got.length := sizeT_natCast (by omega)
  have hcapSize : got.length % 65536 = got.length := Nat.mod_eq_of_lt hlen
  rw [AtEnd] at h
  simp only [inputFromSource, hmode, if_neg h, hread, hsize]
  split_ifs with hshort
  · constructor
    case chunkSize => exact fun hle => absurd hshort (not_lt.2 hle)
    all_goals simp [DataFactory.queued, payload, hcapSize]
  · constructor <;> simp [DataFactory.queued, payload, hcapSize]

namespace Reading

theorem atEnd_iff (h : Reading bytes n fac) :
    fac.AtEnd ↔ bytes.length ≤ sizeT (int32 (n * PAYLOAD : ℕ)) := by
  rw [AtEnd, h.fileSize, h.curSize]

theorem queued_iff (h : Reading bytes n fac) : fac.queued = bytes ↔ n * PAYLOAD = bytes.length := by
  rw [h.queued, List.take_eq_self_iff]
  exact ⟨fun hle => le_antisymm h.inside hle, fun heq => heq.ge⟩

/-- The stream gives the next chunk. -/
theorem readStream_eq (h : Reading bytes n fac) :
    readStream fac.sourceData.fs PAYLOAD = (((chunk PAYLOAD bytes n).length : ℤ), chunk PAYLOAD bytes n,
      { content := bytes, pos := n * PAYLOAD + (chunk PAYLOAD bytes n).length,
        gcount := (chunk PAYLOAD bytes n).length
        failed := decide ((chunk PAYLOAD bytes n).length < PAYLOAD) }) := by
  have hle : (chunk PAYLOAD bytes n).length ≤ PAYLOAD := List.length_take_le _ _
  have hpay : PAYLOAD < 2 ^ 31 := by decide
  have hamt : int32 (chunk PAYLOAD bytes n).length = (chunk PAYLOAD bytes n).length :=
    int32_of_mem (by omega) (by omega)
  simp only [readStream, Fstream.read, h.good, Bool.false_eq_true, if_false, h.content, h.pos,
    getAmountRead, add_sub_cancel_right]
  rw [← chunk, hamt]

/-- What the next call reads. -/
theorem gets (h : Reading bytes n fac) (hend : ¬fac.AtEnd) (m : Block Byte) :
    Gets fac (fac.inputFromSource m) (chunk PAYLOAD bytes n)
      { content := bytes, pos := n * PAYLOAD + (chunk PAYLOAD bytes n).length,
        gcount := (chunk PAYLOAD bytes n).length
        failed := decide ((chunk PAYLOAD bytes n).length < PAYLOAD) } := by
  have hle : (chunk PAYLOAD bytes n).length ≤ PAYLOAD := List.length_take_le _ _
  refine inputFromSource_gets h.fmode hend m ?_ (lt_of_le_of_lt hle (by decide))
  rw [h.chunkSize]
  exact h.readStream_eq

/-- Another call reads a full chunk. -/
theorem next (h : Reading bytes n fac) (hend : ¬fac.AtEnd) (m : Block Byte)
    (hfull : (n + 1) * PAYLOAD ≤ bytes.length) : Reading bytes (n + 1) (fac.inputFromSource m) := by
  have hg := h.gets hend m
  have hlen : (chunk PAYLOAD bytes n).length = PAYLOAD := length_chunk_of_le hfull
  have hnext : n * PAYLOAD + PAYLOAD = (n + 1) * PAYLOAD := (Nat.succ_mul _ _).symm
  constructor
  case inside => exact hfull
  case curSize => rw [hg.curSize, h.curSize, int32_add, ← Nat.cast_add, hlen, hnext]
  case queued => rw [hg.queued, h.queued, take_append_chunk]
  case chunkSize =>
    rw [hg.chunkSize, h.chunkSize]
    rw [h.chunkSize, hlen]
  all_goals simp [hg.source, h.fmode, h.fileSize, hlen, hnext]

/-- Another call reads what is left of the file. -/
theorem finish (h : Reading bytes n fac) (hend : ¬fac.AtEnd) (m : Block Byte)
    (hlast : bytes.length < (n + 1) * PAYLOAD) : Finished bytes (fac.inputFromSource m) := by
  have hg := h.gets hend m
  have hlen : n * PAYLOAD + (chunk PAYLOAD bytes n).length = bytes.length := by
    have := h.inside
    rw [length_chunk]
    rw [Nat.succ_mul] at hlast
    omega
  constructor
  case curSize => rw [hg.curSize, h.curSize, int32_add, ← Nat.cast_add, hlen]
  case queued => rw [hg.queued, h.queued, take_append_chunk, List.take_of_length_le hlast.le]
  all_goals simp [hg.source, h.fmode, h.fileSize]

end Reading

theorem Finished.atEnd_iff (h : Finished bytes fac) :
    fac.AtEnd ↔ bytes.length ≤ sizeT (int32 bytes.length) := by
  rw [AtEnd, h.fileSize, h.curSize]

/-! ## All calls -/

/-- As long as the end is found when it should be, every call reads the next chunk. -/
theorem TracksProgress.reading (h : TracksProgress bytes heap) (hn : n * PAYLOAD ≤ bytes.length) :
    Reading bytes n (calls bytes heap n) := by
  induction n with
  | zero => exact reading_ofSource bytes
  | succ n ih =>
    have hlt : n * PAYLOAD < bytes.length := by
      rw [Nat.succ_mul] at hn
      exact lt_of_lt_of_le (Nat.lt_add_of_pos_right (by decide)) hn
    have hread := ih hlt.le
    refine hread.next (fun hend => ?_) (heap n) hn
    exact hlt.ne (hread.queued_iff.1 ((h n).1 hend))

/-- If the counter tells the end, a factory has read full chunks, or all the file. -/
theorem Counts.reads (h : Counts bytes.length) (heap : ℕ → Block Byte) (n : ℕ) :
    (∃ k, Reading bytes k (calls bytes heap n)) ∨ Finished bytes (calls bytes heap n) := by
  induction n with
  | zero => exact .inl ⟨0, reading_ofSource bytes⟩
  | succ n ih =>
    rw [calls]
    rcases ih with ⟨k, hread⟩ | hfin
    · by_cases hend : (calls bytes heap n).AtEnd
      · rw [inputFromSource_of_atEnd hread.fmode hend]
        exact .inl ⟨k, { hread with }⟩
      · rcases Nat.lt_or_ge bytes.length ((k + 1) * PAYLOAD) with hlast | hfull
        · exact .inr (hread.finish hend (heap n) hlast)
        · exact .inl ⟨k + 1, hread.next hend (heap n) hfull⟩
    · rw [inputFromSource_of_atEnd hfin.fmode (hfin.atEnd_iff.2 h.last)]
      exact .inr { hfin with }

/-- Whether the end is found when it should be is a matter of the size. -/
theorem tracksProgress_iff_counts : TracksProgress bytes heap ↔ Counts bytes.length := by
  constructor
  · intro h
    refine ⟨fun n hn => ?_, ?_⟩
    · have hread := h.reading hn
      rw [← hread.atEnd_iff, h n, hread.queued_iff]
    · set k := bytes.length / PAYLOAD with hk
      have hread := h.reading (Nat.div_mul_le_self bytes.length PAYLOAD)
      have hlast : bytes.length < (k + 1) * PAYLOAD :=
        Nat.lt_mul_of_div_lt (Nat.lt_succ_self _) (by decide)
      by_cases hend : (calls bytes heap k).AtEnd
      · -- The file is a number of full chunks.
        have heq := hread.queued_iff.1 ((h _).1 hend)
        rwa [hread.atEnd_iff, heq] at hend
      · have hfin := hread.finish hend (heap k) hlast
        exact hfin.atEnd_iff.1 ((h (k + 1)).2 hfin.queued)
  · intro h n
    rcases h.reads heap n with ⟨k, hread⟩ | hfin
    · rw [hread.atEnd_iff, hread.queued_iff]
      exact h.chunks k hread.inside
    · exact iff_of_true (hfin.atEnd_iff.2 h.last) hfin.queued

/-! ## The sizes -/

/-- The sizes of files whose end the counter tells. -/
theorem counts_iff {size : ℕ} (h : size < 2 ^ 64) :
    Counts size ↔ size ≤ MAX_CHUNKS * PAYLOAD ∨ size = 2 ^ 64 - 1 := by
  constructor
  · intro hcounts
    by_contra hnot
    obtain ⟨hlarge, hodd⟩ := not_or.1 hnot
    rcases Nat.lt_or_ge (2 ^ 64 - 2 ^ 31) size with htop | hbelow
    · -- The counter gets to `-2`.
      have hcur : sizeT (int32 (1948896695 * PAYLOAD : ℕ)) = 2 ^ 64 - 2 := by decide
      have hinside : 1948896695 * PAYLOAD < 2 ^ 64 - 2 ^ 31 := by decide
      have := (hcounts.chunks 1948896695 (by omega)).1 (by omega)
      omega
    · have hneg : int32 (MAX_CHUNKS * PAYLOAD : ℕ) < 0 := by decide
      have hcur := le_sizeT_of_neg hneg (le_int32 _)
      have := (hcounts.chunks MAX_CHUNKS (by omega)).1 (by omega)
      omega
  · rintro (hsmall | rfl)
    · have hlt : size < 2 ^ 32 := lt_of_le_of_lt hsmall (by decide)
      refine ⟨fun n hn => ?_, le_sizeT_int32 le_rfl hlt⟩
      rcases Nat.lt_or_ge n MAX_CHUNKS with hmax | hmax
      · rw [sizeT_int32_of_lt hmax]
        exact ⟨fun hle => le_antisymm hn hle, fun heq => heq.ge⟩
      · have heq : n * PAYLOAD = size :=
          le_antisymm hn (hsmall.trans (Nat.mul_le_mul_right _ hmax))
        exact iff_of_true (le_sizeT_int32 heq.ge (heq ▸ hlt)) heq
    · refine ⟨fun n _ => ?_, by decide⟩
      -- After full chunks, the counter is even.
      have hpay : PAYLOAD = 49138 := rfl
      rw [hpay, int32, sizeT]
      omega

/-- The test for the end of the file is right, after any number of calls, exactly for the
    files of at most `MAX_CHUNKS` chunks, and those of `2 ^ 64 - 1` bytes. -/
theorem tracksProgress_iff (heap : ℕ → Block Byte) (h : bytes.length < 2 ^ 64) :
    TracksProgress bytes heap ↔
      bytes.length ≤ MAX_CHUNKS * PAYLOAD ∨ bytes.length = 2 ^ 64 - 1 :=
  tracksProgress_iff_counts.trans (counts_iff h)

theorem tracksProgress_three : TracksProgress [1, 2, 3] fun _ _ => 0 :=
  (tracksProgress_iff _ (by decide)).2 (.inl (by decide))

/-- With one byte more, the end is found before the last byte. -/
theorem not_tracksProgress :
    ¬TracksProgress (List.replicate (MAX_CHUNKS * PAYLOAD + 1) 0) fun _ _ => 0 := by
  rw [tracksProgress_iff_counts, List.length_replicate, counts_iff (by decide)]
  decide

end DataFactory

end Udm
