import Udm.Library.Memory
import Udm.Library.Word

/-!
# Capsules

The datagrams of the protocol (`datafactory.h`): a capsule is a packed header
(`capsuleHdr`) and a body, whose first `HEADER_SPACE` bytes are where the header
is copied before the capsule is sent.

The header is laid out as the compiler lays out the packed struct on a host of
byte order `bo`: the fields in their order, the words in the order of the host,
and the four bit-fields packed into one 16-bit unit, from its low bits on a
little-endian host and from its high bits on a big-endian one (`bitfields`).
Encoding and decoding are inverse to each other (`decode_encode`,
`encode_decode`).
-/

namespace Udm

/-- `CHUNK`, also the `ALLOC_SIZE` every `DataFactory` is built with. -/
abbrev CHUNK : ℕ := 49152

/-- `enum class sourceMode`. -/
inductive SourceMode
  | IN
  | OUT
  deriving DecidableEq, Repr

/-- `enum class capsuleType`. -/
inductive CapsuleType
  | CTRL
  | PIGGY
  | INQ
  | PAYLD
  deriving DecidableEq, Repr

/-- The code of a capsule type. -/
def CapsuleType.code : CapsuleType → BitVec 2
  | CTRL => 0b00
  | PIGGY => 0b01
  | INQ => 0b10
  | PAYLD => 0b11

/-- `enum class flags`. -/
inductive Flags
  | FIN
  | DON
  | OK
  | RST
  | ACK
  deriving DecidableEq, Repr

/-- The bit of a flag. -/
def Flags.code : Flags → BitVec 8
  | FIN => 0b0000001
  | DON => 0b0000010
  | OK => 0b0000100
  | RST => 0b0001000
  | ACK => 0b0010000

/-- `enum class stateCodes`. -/
inductive StateCodes
  | open
  | setup
  | connected
  | closed
  | done
  | inq
  | send
  | recv
  deriving DecidableEq, Repr

/-- `enum class stateDirection`. -/
inductive StateDirection
  | TX
  | RX
  deriving DecidableEq, Repr

/-! ## Headers -/

/-- `capsuleHdr`, which is packed: the four bit fields share a word. -/
@[ext] structure CapsuleHdr where
  /-- The id that the side that sends has generated. -/
  srcid : BitVec 8 := 0
  /-- The id that it knows of its peer. -/
  destid : BitVec 8 := 0
  /-- The id of the connection. -/
  connid : BitVec 16 := 0
  /-- The number of the capsule, the key of the window. -/
  capid : BitVec 16 := 0
  /-- The size of the payload, in bytes. -/
  capSize : BitVec 16 := 0
  /-- The code of a `CapsuleType`. -/
  capType : BitVec 2 := 0
  /-- Sent as 0. -/
  capPriority : BitVec 2 := 0
  /-- The window size that is announced. -/
  capWinSiz : BitVec 4 := 0
  /-- The codes of the `Flags` that are set. -/
  capFlags : BitVec 8 := 0
  /-- Sent as 0, too. -/
  capopts : BitVec 32 := 0
  deriving DecidableEq, Repr

/-- `HEADER_SPACE`: the size of a packed header. -/
abbrev HEADER_SPACE : ℕ := 14

namespace CapsuleHdr

/-- `capType & PAYLD`: any type but `CTRL`. -/
def isPayld (h : CapsuleHdr) : Bool := h.capType &&& CapsuleType.PAYLD.code ≠ 0

/-- `capFlags & FIN`. -/
def isFin (h : CapsuleHdr) : Bool := h.capFlags &&& Flags.FIN.code ≠ 0

/-- The 16-bit unit of the bit-fields `capType`, `capPriority`, `capWinSiz` and
    `capFlags`. -/
def bitfields (bo : ByteOrder) (h : CapsuleHdr) : ℕ :=
  match bo with
  | .little => h.capType.toNat + 4 * (h.capPriority.toNat + 4 * (h.capWinSiz.toNat +
      16 * h.capFlags.toNat))
  | .big => h.capFlags.toNat + 256 * (h.capWinSiz.toNat + 16 * (h.capPriority.toNat +
      4 * h.capType.toNat))

theorem bitfields_lt (bo : ByteOrder) (h : CapsuleHdr) : h.bitfields bo < 2 ^ 16 := by
  have := h.capType.isLt
  have := h.capPriority.isLt
  have := h.capWinSiz.isLt
  have := h.capFlags.isLt
  cases bo <;> simp only [bitfields] <;> omega

/-- The bytes of a header in memory. -/
def encode (bo : ByteOrder) (h : CapsuleHdr) : List Byte :=
  bo.bytes 1 h.srcid.toNat ++ (bo.bytes 1 h.destid.toNat ++ (bo.bytes 2 h.connid.toNat ++
    (bo.bytes 2 h.capid.toNat ++ (bo.bytes 2 h.capSize.toNat ++
      (bo.bytes 2 (h.bitfields bo) ++ bo.bytes 4 h.capopts.toNat)))))

/-- The word of `k` bytes at the offset `off`. -/
def word (bo : ByteOrder) (bs : List Byte) (off k : ℕ) : ℕ := bo.value ((bs.drop off).take k)

/-- The header whose bytes in memory are `bs`. -/
def decode (bo : ByteOrder) (bs : List Byte) : CapsuleHdr :=
  let unit := word bo bs 8 2
  { srcid := BitVec.ofNat _ (word bo bs 0 1)
    destid := BitVec.ofNat _ (word bo bs 1 1)
    connid := BitVec.ofNat _ (word bo bs 2 2)
    capid := BitVec.ofNat _ (word bo bs 4 2)
    capSize := BitVec.ofNat _ (word bo bs 6 2)
    capType := BitVec.ofNat _ (match bo with | .little => unit | .big => unit / 2 ^ 14)
    capPriority := BitVec.ofNat _ (match bo with | .little => unit / 2 ^ 2 | .big => unit / 2 ^ 12)
    capWinSiz := BitVec.ofNat _ (match bo with | .little => unit / 2 ^ 4 | .big => unit / 2 ^ 8)
    capFlags := BitVec.ofNat _ (match bo with | .little => unit / 2 ^ 8 | .big => unit)
    capopts := BitVec.ofNat _ (word bo bs 10 4) }

@[simp] theorem length_encode (bo : ByteOrder) (h : CapsuleHdr) :
    (h.encode bo).length = HEADER_SPACE := by simp [encode]

theorem word_bytes (bo : ByteOrder) (k n : ℕ) (bs : List Byte) :
    word bo (bo.bytes k n ++ bs) 0 k = n % 256 ^ k := by
  rw [word, List.drop_zero, List.take_left' (bo.length_bytes k n), ByteOrder.value_bytes]

theorem word_skip (bo : ByteOrder) {j off : ℕ} (h : j ≤ off) (k n : ℕ) (bs : List Byte) :
    word bo (bo.bytes j n ++ bs) off k = word bo bs (off - j) k := by
  rw [word, word, List.drop_append, ByteOrder.length_bytes,
    List.drop_of_length_le (by simpa using h), List.nil_append]

/-- A field of the header read back from its word. -/
theorem ofNat_toNat_mod {w : ℕ} (x : BitVec w) {k : ℕ} (hk : 2 ^ w ≤ 256 ^ k) :
    BitVec.ofNat w (x.toNat % 256 ^ k) = x := by
  rw [Nat.mod_eq_of_lt (x.isLt.trans_le hk), BitVec.ofNat_toNat, BitVec.setWidth_eq]

/-- A bit-field read back from the unit it is packed in. -/
theorem ofNat_of_mod {w n : ℕ} {x : BitVec w} (h : n % 2 ^ w = x.toNat) : BitVec.ofNat w n = x :=
  BitVec.eq_of_toNat_eq (by rw [BitVec.toNat_ofNat, h])

/-- Decoding the bytes of a header, whatever follows them, gives the header. -/
theorem decode_encode_append (bo : ByteOrder) (h : CapsuleHdr) (bs : List Byte) :
    decode bo (h.encode bo ++ bs) = h := by
  have hu : word bo (h.encode bo ++ bs) 8 2 = h.bitfields bo := by
    simp only [encode, List.append_assoc]
    simp (disch := decide) only [word_skip, word_bytes, Nat.reduceSub]
    exact Nat.mod_eq_of_lt (h.bitfields_lt bo)
  have ht := h.capType.isLt
  have hp := h.capPriority.isLt
  have hw := h.capWinSiz.isLt
  have hf := h.capFlags.isLt
  ext1
  case capType | capPriority | capWinSiz | capFlags =>
    simp only [decode, hu]
    refine ofNat_of_mod ?_
    cases bo <;> simp only [bitfields] <;> omega
  all_goals
    simp only [decode, encode, List.append_assoc]
    simp (disch := decide) only [word_skip, word_bytes, Nat.reduceSub, ofNat_toNat_mod]

@[simp] theorem decode_encode (bo : ByteOrder) (h : CapsuleHdr) : decode bo (h.encode bo) = h := by
  simpa using h.decode_encode_append bo []

/-- The bytes of a word of the memory a header was decoded from. -/
theorem bytes_word (bo : ByteOrder) {bs : List Byte} {off k : ℕ} (h : off + k ≤ bs.length) :
    bo.bytes k (word bo bs off k) = (bs.drop off).take k ∧ word bo bs off k < 256 ^ k := by
  have hlen : ((bs.drop off).take k).length = k := by
    rw [List.length_take, List.length_drop]
    omega
  have hb := bo.bytes_value ((bs.drop off).take k)
  have hlt := bo.value_lt ((bs.drop off).take k)
  rw [hlen] at hb hlt
  exact ⟨hb, hlt⟩

theorem bitfields_decode (bo : ByteOrder) {bs : List Byte} (hbs : bs.length = HEADER_SPACE) :
    (decode bo bs).bitfields bo = word bo bs 8 2 := by
  have hlt : word bo bs 8 2 < 256 ^ 2 := (bytes_word bo (by rw [hbs]; decide)).2
  cases bo <;> simp only [bitfields, decode, BitVec.toNat_ofNat] <;> omega

/-- Encoding what was decoded from the bytes of a header gives the bytes. -/
theorem encode_decode (bo : ByteOrder) {bs : List Byte} (hbs : bs.length = HEADER_SPACE) :
    (decode bo bs).encode bo = bs := by
  have seg : ∀ {w : ℕ} (off k : ℕ), 256 ^ k = 2 ^ w → off + k ≤ HEADER_SPACE →
      bo.bytes k (BitVec.ofNat w (word bo bs off k)).toNat = (bs.drop off).take k := by
    intro w off k hw hle
    obtain ⟨hb, hlt⟩ := bytes_word bo (hbs ▸ hle)
    rwa [BitVec.toNat_ofNat, Nat.mod_eq_of_lt (hw ▸ hlt)]
  have glue : ∀ off k, (bs.drop off).take k ++ bs.drop (off + k) = bs.drop off := fun off k => by
    rw [← List.drop_drop]
    exact List.take_append_drop k (bs.drop off)
  have srcid : bo.bytes 1 (decode bo bs).srcid.toNat = _ := seg 0 1 rfl (by decide)
  have destid : bo.bytes 1 (decode bo bs).destid.toNat = _ := seg 1 1 rfl (by decide)
  have connid : bo.bytes 2 (decode bo bs).connid.toNat = _ := seg 2 2 rfl (by decide)
  have capid : bo.bytes 2 (decode bo bs).capid.toNat = _ := seg 4 2 rfl (by decide)
  have capSize : bo.bytes 2 (decode bo bs).capSize.toNat = _ := seg 6 2 rfl (by decide)
  have capopts : bo.bytes 4 (decode bo bs).capopts.toNat = _ := seg 10 4 rfl (by decide)
  have hend : (bs.drop 10).take 4 = bs.drop 10 :=
    List.take_of_length_le (by rw [List.length_drop, hbs]; decide)
  rw [encode, bitfields_decode bo hbs, srcid, destid, connid, capid, capSize, capopts,
    (bytes_word bo (by rw [hbs]; decide)).1, hend, glue 8 2, glue 6 2, glue 4 2, glue 2 2,
    glue 1 1, glue 0 1, List.drop_zero]

end CapsuleHdr

/-! ## Capsules and buffers -/

/-- `capsule`: the header, and the memory at the body pointer. -/
structure Capsule where
  header : CapsuleHdr
  body : Block Byte

/-- `struct params`: the header fields a caller asks for, those of the header. -/
abbrev Params := CapsuleHdr

/-- `memBuff`. Elements are told apart by the address they are allocated at
    (`addr`, the number of the allocation), since `rxcurrentWindow` points to
    elements owned by a queue. The capsule pointer `data` is set when a buffer
    is built, and never null. -/
structure MemBuff where
  addr : ℕ
  size : ℤ
  data : Capsule

/-- `sizeof(struct capsule)`: a packed header and a pointer. -/
abbrev SIZEOF_CAPSULE : ℤ := 22

end Udm
