import ClawBox.Lib.SparseFile

namespace ClawBox.PageSnapshot

open SparseFile

-- The structs are packed and the host is little-endian.
def littleEndian : ℕ → ℕ → Bytes
  | 0, _ => []
  | n + 1, x => UInt8.ofNat x :: littleEndian n (x / 256)

def ofLittleEndian : Bytes → ℕ
  | [] => 0
  | b :: bs => b.toNat + 256 * ofLittleEndian bs

def field (bs : Bytes) (start count : ℕ) : ℕ := ofLittleEndian ((bs.drop start).take count)

def magic : Bytes := [67, 66, 90, 80, 71, 48, 48, 50]

def version : UInt32 := 2

def encodingHole : UInt8 := 0

def encodingZstd : UInt8 := 1

def chunkBytes : UInt32 := 1024 * 1024

def headerSize : UInt64 := 64

def entrySize : UInt64 := 16

def sizeMax : UInt64 := 0xffffffffffffffff

structure Header where
  magic : Bytes
  version : UInt32
  chunkSize : UInt32
  logicalSize : UInt64
  chunkCount : UInt64
  indexOffset : UInt64
  dataOffset : UInt64
  deriving DecidableEq

structure Entry where
  offset : UInt64 := 0
  length : UInt32 := 0
  encoding : UInt8 := encodingHole
  deriving DecidableEq

def Header.bytes (h : Header) : Bytes :=
  h.magic ++ littleEndian 4 h.version.toNat ++ littleEndian 4 h.chunkSize.toNat ++ littleEndian 8 h.logicalSize.toNat ++
    littleEndian 8 h.chunkCount.toNat ++ littleEndian 8 h.indexOffset.toNat ++ littleEndian 8 h.dataOffset.toNat ++
    List.replicate 16 0

def Header.parse (bs : Bytes) : Header where
  magic := bs.take 8
  version := .ofNat (field bs 8 4)
  chunkSize := .ofNat (field bs 12 4)
  logicalSize := .ofNat (field bs 16 8)
  chunkCount := .ofNat (field bs 24 8)
  indexOffset := .ofNat (field bs 32 8)
  dataOffset := .ofNat (field bs 40 8)

def Entry.bytes (e : Entry) : Bytes :=
  littleEndian 8 e.offset.toNat ++ littleEndian 4 e.length.toNat ++ [e.encoding] ++ List.replicate 3 0

def Entry.parse (bs : Bytes) : Entry where
  offset := .ofNat (field bs 0 8)
  length := .ofNat (field bs 8 4)
  encoding := .ofNat (field bs 12 1)

def offT (x : UInt64) : ℤ := if x.toNat < 2 ^ 63 then x.toNat else x.toNat - 2 ^ 64

@[simp] theorem length_littleEndian (n x : ℕ) : (littleEndian n x).length = n := by
  induction n generalizing x with
  | zero => rfl
  | succ n ih => simp [littleEndian, ih]

theorem ofLittleEndian_littleEndian (n x : ℕ) : ofLittleEndian (littleEndian n x) = x % 256 ^ n := by
  induction n generalizing x with
  | zero => simp [littleEndian, ofLittleEndian, Nat.mod_one]
  | succ n ih =>
    rw [littleEndian, ofLittleEndian, ih, Nat.pow_succ', Nat.mod_mul]
    congr 1

theorem field_append {before after : Bytes} {start count x : ℕ} (hs : before.length = start) (hx : x < 256 ^ count) :
    field (before ++ littleEndian count x ++ after) start count = x := by
  subst hs
  rw [field, List.append_assoc, List.drop_left, List.take_append_of_le_length (by simp),
    List.take_of_length_le (by simp), ofLittleEndian_littleEndian, Nat.mod_eq_of_lt hx]

theorem Header.parse_bytes (h : Header) (hm : h.magic.length = 8) : Header.parse h.bytes = h := by
  have hv : field h.bytes 8 4 = h.version.toNat := by
    simp only [Header.bytes, List.append_assoc]
    rw [← List.append_assoc]
    exact field_append hm h.version.toNat_lt
  have hc : field h.bytes 12 4 = h.chunkSize.toNat := by
    simp only [Header.bytes, List.append_assoc]
    rw [← List.append_assoc, ← List.append_assoc]
    exact field_append (by simp [hm]) h.chunkSize.toNat_lt
  have hl : field h.bytes 16 8 = h.logicalSize.toNat := by
    simp only [Header.bytes, List.append_assoc]
    rw [← List.append_assoc, ← List.append_assoc, ← List.append_assoc]
    exact field_append (by simp [hm]) h.logicalSize.toNat_lt
  have hn : field h.bytes 24 8 = h.chunkCount.toNat := by
    simp only [Header.bytes, List.append_assoc]
    rw [← List.append_assoc, ← List.append_assoc, ← List.append_assoc, ← List.append_assoc]
    exact field_append (by simp [hm]) h.chunkCount.toNat_lt
  have hi : field h.bytes 32 8 = h.indexOffset.toNat := by
    simp only [Header.bytes, List.append_assoc]
    rw [← List.append_assoc, ← List.append_assoc, ← List.append_assoc, ← List.append_assoc, ← List.append_assoc]
    exact field_append (by simp [hm]) h.indexOffset.toNat_lt
  have hd : field h.bytes 40 8 = h.dataOffset.toNat := by
    rw [Header.bytes]
    exact field_append (by simp [hm]) h.dataOffset.toNat_lt
  have ht : h.bytes.take 8 = h.magic := by
    simp only [Header.bytes, List.append_assoc]
    rw [List.take_append_of_le_length hm.ge, List.take_of_length_le hm.le]
  simp [Header.parse, hv, hc, hl, hn, hi, hd, ht]

theorem Header.length_bytes (h : Header) (hm : h.magic.length = 8) : h.bytes.length = 64 := by simp [Header.bytes, hm]

theorem Entry.parse_bytes (e : Entry) : Entry.parse e.bytes = e := by
  have ho : field e.bytes 0 8 = e.offset.toNat := by
    simp only [Entry.bytes, List.append_assoc]
    exact @field_append [] _ _ _ _ rfl e.offset.toNat_lt
  have hl : field e.bytes 8 4 = e.length.toNat := by
    simp only [Entry.bytes, List.append_assoc]
    rw [← List.append_assoc]
    exact field_append (by simp) e.length.toNat_lt
  have he : field e.bytes 12 1 = e.encoding.toNat := by
    have hone : [e.encoding] = littleEndian 1 e.encoding.toNat := by simp [littleEndian]
    rw [Entry.bytes, hone]
    exact field_append (by simp) (by simpa using e.encoding.toNat_lt)
  simp [Entry.parse, ho, hl, he]

theorem Entry.length_bytes (e : Entry) : e.bytes.length = 16 := by simp [Entry.bytes]

end ClawBox.PageSnapshot
