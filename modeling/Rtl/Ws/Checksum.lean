import Mathlib.Algebra.Group.Nat.Defs

/-! # The checksum of a transfer

`crc32_of_bytes` hands a whole buffer to zlib in one call, `crc32_of_file` reads the
file in blocks of 64 KiB. zlib is any function that may be fed in pieces; its length
argument has 32 bits.
-/

namespace Rtl.Ws

/-- zlib's `crc32`, which adds bytes to a checksum. A null pointer stands for no bytes,
and the `uLong` of a checksum is below 2^32. -/
structure StreamingCrc where
  crc32 : UInt32 → List UInt8 → UInt32
  stream : ∀ a b, crc32 (crc32 0 a) b = crc32 0 (a ++ b)

/-- A call with a length that is narrowed to `uInt`. -/
def StreamingCrc.call (z : StreamingCrc) (crc : UInt32) (data : List UInt8) (length : Nat) : UInt32 :=
  z.crc32 crc (data.take (length % 2 ^ 32))

def crc32OfBytes (z : StreamingCrc) (data : List UInt8) : UInt32 := z.call 0 data data.length

/-- An input file: what is left to read, and whether the last read got all it asked for. -/
structure InputFile where
  rest : List UInt8
  good : Bool

/-- `read` and `gcount`: the bytes that were read, and the file afterwards. -/
def InputFile.read (file : InputFile) (count : Nat) : List UInt8 × InputFile :=
  (file.rest.take count, ⟨file.rest.drop count, decide (count ≤ file.rest.length)⟩)

def bufferSize : Nat := 64 * 1024

theorem InputFile.read_lt {file : InputFile} (good : file.good = true) :
    (file.read bufferSize).2.rest.length + (file.read bufferSize).2.good.toNat <
      file.rest.length + file.good.toNat := by
  have enough : 0 < bufferSize := by decide
  simp only [InputFile.read, List.length_drop, good, Bool.toNat_true]
  by_cases full : bufferSize ≤ file.rest.length
  · simp only [full, decide_true, Bool.toNat_true]
    omega
  · simp only [full, decide_false, Bool.toNat_false]
    omega

def crc32Loop (z : StreamingCrc) (crc : UInt32) (file : InputFile) : UInt32 :=
  if _ : file.good = true then
    let buffer := (file.read bufferSize).1
    crc32Loop z (if 0 < buffer.length then z.call crc buffer buffer.length else crc)
      (file.read bufferSize).2
  else crc
termination_by file.rest.length + file.good.toNat
decreasing_by exact InputFile.read_lt ‹_›

/-- The contents of the file, or nothing if it cannot be opened. -/
def crc32OfFile (z : StreamingCrc) (contents : Option (List UInt8)) : Except String UInt32 :=
  match contents with
  | none => .error "Cannot open file"
  | some data => .ok (crc32Loop z (z.call 0 [] 0) ⟨data, true⟩)

/-! ## Both paths -/

variable {z : StreamingCrc}

/-- A length that fits is not changed. -/
theorem call_eq (crc : UInt32) {data : List UInt8} (short : data.length < 2 ^ 32) :
    z.call crc data data.length = z.crc32 crc data := by
  rw [StreamingCrc.call, Nat.mod_eq_of_lt short, List.take_length]

/-- A block is added, and an empty one changes nothing. -/
theorem addBlock_eq (done : List UInt8) {buffer : List UInt8} (short : buffer.length < 2 ^ 32) :
    (if 0 < buffer.length then z.call (z.crc32 0 done) buffer buffer.length else z.crc32 0 done) =
      z.crc32 0 (done ++ buffer) := by
  by_cases some : 0 < buffer.length
  · rw [if_pos some, call_eq _ short, z.stream]
  · have empty : buffer = [] := List.length_eq_zero_iff.mp (by omega)
    rw [if_neg some, empty, List.append_nil]

/-- The loop adds what is left of the file to the checksum of what was read before. -/
theorem crc32Loop_eq (z : StreamingCrc) (done : List UInt8) (file : InputFile) :
    crc32Loop z (z.crc32 0 done) file =
      z.crc32 0 (if file.good = true then done ++ file.rest else done) := by
  generalize left : file.rest.length + file.good.toNat = n
  -- on what the termination of the loop is measured by
  induction n using Nat.strongRecOn generalizing done file with
  | ind n ih =>
      unfold crc32Loop
      by_cases good : file.good = true
      · have short : (file.read bufferSize).1.length < 2 ^ 32 := by
          have block : bufferSize < 2 ^ 32 := by decide
          simp only [InputFile.read, List.length_take]
          omega
        rw [dif_pos good, if_pos good]
        simp only [addBlock_eq done short]
        rw [ih _ (left ▸ InputFile.read_lt good) _ _ rfl]
        by_cases full : bufferSize ≤ file.rest.length
        · simp [InputFile.read, full]
        · simp [InputFile.read, full, List.take_of_length_le (Nat.le_of_not_le full)]
      · rw [dif_neg good, if_neg good]

/-- The file path is the checksum of all bytes, of any length. -/
theorem crc32OfFile_eq (z : StreamingCrc) (data : List UInt8) :
    crc32OfFile z (some data) = .ok (z.crc32 0 data) := by
  have null : z.call 0 [] 0 = z.crc32 0 [] := call_eq 0 (by decide)
  rw [crc32OfFile, null, crc32Loop_eq]
  rfl

/-- The two paths agree on every sequence of less than 2^32 bytes. On a longer one they agree only
by a collision: if its first bytes, as many as the low 32 bits of its length say, happen to have the
checksum of the whole. -/
theorem checksum_paths_agree (z : StreamingCrc) (data : List UInt8) :
    (data.length < 2 ^ 32 → crc32OfFile z (some data) = .ok (crc32OfBytes z data)) ∧
    (crc32OfFile z (some data) = .ok (crc32OfBytes z data) ↔
      z.crc32 0 data = z.crc32 0 (data.take (data.length % 2 ^ 32))) := by
  rw [crc32OfFile_eq, Except.ok.injEq]
  refine ⟨?_, Iff.rfl⟩
  intro short
  exact (call_eq 0 short).symm

/-! ## CRC-32 -/

/-- One step of the shift register, with the reversed polynomial. -/
def crcBit (register : UInt32) : UInt32 :=
  if register &&& 1 = 1 then (register >>> 1) ^^^ 0xEDB88320 else register >>> 1

def crcByte (register : UInt32) (byte : UInt8) : UInt32 :=
  Nat.repeat crcBit 8 (register ^^^ byte.toUInt32)

/-- The checksum zlib really computes; a checksum is the register with all bits turned. -/
def zlib : StreamingCrc where
  crc32 crc data := data.foldl crcByte (crc ^^^ 0xFFFFFFFF) ^^^ 0xFFFFFFFF
  stream a b := by
    rw [List.foldl_append, UInt32.xor_assoc _ 0xFFFFFFFF, UInt32.xor_self, UInt32.xor_zero]

theorem checksum_paths_agree_digits :
    crc32OfFile zlib (some [0x31, 0x32, 0x33]) = .ok (crc32OfBytes zlib [0x31, 0x32, 0x33]) :=
  (checksum_paths_agree zlib [0x31, 0x32, 0x33]).1 (by decide)

/-- Four bytes that clear the register, and zeros. -/
def clearedThenZeros (count : Nat) : List UInt8 :=
  [0xFF, 0xFF, 0xFF, 0xFF] ++ List.replicate count 0

theorem clearedThenZeros_length (count : Nat) : (clearedThenZeros count).length = count + 4 := by
  rw [clearedThenZeros, List.length_append, List.length_replicate, Nat.add_comm]
  rfl

/-- Zeros leave an empty register empty. -/
theorem foldl_zeros (count : Nat) : (List.replicate count 0).foldl crcByte 0 = 0 := by
  induction count with
  | zero => rfl
  | succ count ih =>
      rw [List.replicate_succ, List.foldl_cons]
      exact ih

theorem zlib_clearedThenZeros (count : Nat) : zlib.crc32 0 (clearedThenZeros count) = 0xFFFFFFFF := by
  have cleared : [0xFF, 0xFF, 0xFF, 0xFF].foldl crcByte (0 ^^^ 0xFFFFFFFF) = 0 := by decide +kernel
  simp only [zlib, clearedThenZeros]
  rw [List.foldl_append, cleared, foldl_zeros]
  rfl

/-- 2^32 bytes: the buffer is handed over with length 0. -/
theorem checksum_paths_differ :
    ∃ data : List UInt8, data.length = 2 ^ 32 ∧ crc32OfBytes zlib data = 0 ∧
      crc32OfFile zlib (some data) = .ok 0xFFFFFFFF := by
  refine ⟨clearedThenZeros (2 ^ 32 - 4), clearedThenZeros_length _, ?_, ?_⟩
  · rw [crc32OfBytes, clearedThenZeros_length]
    rfl
  · rw [crc32OfFile_eq, zlib_clearedThenZeros]

/-- Less than 2^32 bytes is not necessary: here the four bytes that are handed over have the checksum
of all the bytes. -/
theorem checksum_paths_collide :
    ∃ data : List UInt8, 2 ^ 32 ≤ data.length ∧
      crc32OfFile zlib (some data) = .ok (crc32OfBytes zlib data) := by
  refine ⟨clearedThenZeros (2 ^ 32), by rw [clearedThenZeros_length]; omega, ?_⟩
  have handed : crc32OfBytes zlib (clearedThenZeros (2 ^ 32)) = zlib.crc32 0 (clearedThenZeros 0) := by
    rw [crc32OfBytes, clearedThenZeros_length]
    rfl
  rw [crc32OfFile_eq, handed, zlib_clearedThenZeros, zlib_clearedThenZeros]

end Rtl.Ws
