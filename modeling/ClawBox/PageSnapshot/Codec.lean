import ClawBox.PageSnapshot.Format
import ClawBox.Lib.Raising

namespace ClawBox.PageSnapshot

open SparseFile

/-- What the system calls do. An interrupted call is repeated and has no effect. -/
structure Host where
  inputPath : String
  outputPath : String
  opensInput : Bool
  opensOutput : Bool
  malloc : ℕ → Bool
  ftruncate : ℕ → Bool
  -- an error, or how many bytes a call would like to move
  pread : ℕ → ℕ → Option ℕ
  pwrite : ℕ → ℕ → Option ℕ
  seeks : Bool
  fsync : Bool
  fstat : Bool
  pageSize : ℤ

structure Zstd where
  compressBound : ℕ → ℕ
  compress : ℕ → Bytes → Option Bytes
  decompress : ℕ → Bytes → Option Bytes

namespace Host

def pwriteLimit : ℕ := 2 ^ 63 - 1

/-- `read_full`, where every call of `pread` brings at least one byte unless the file ends. -/
def readLoop (host : Host) (f : Image) : ℕ → ℕ → ℤ → Option Bytes
  | _, 0, _ => some []
  | 0, _ + 1, _ => none
  | fuel + 1, size + 1, offset =>
    if offset < 0 then none
    else match host.pread offset.toNat (size + 1) with
      | none => none
      | some wish =>
        let got := min (max wish 1) (min (size + 1) (f.size - offset.toNat))
        if got = 0 then none
        else (readLoop host f fuel (size + 1 - got) (offset + got)).map (f.slice offset.toNat got ++ ·)

def readFull (host : Host) (f : Image) (size : ℕ) (offset : ℤ) : Option Bytes := host.readLoop f size size offset

/-- `write_full`; no file grows past the largest `off_t`. -/
def writeLoop (host : Host) : ℕ → Image → Bytes → ℤ → Option Image
  | _, f, [], _ => some f
  | 0, _, _ :: _, _ => none
  | fuel + 1, f, data, offset =>
    if offset < 0 ∨ pwriteLimit ≤ offset then none
    else match host.pwrite offset.toNat data.length with
      | none => none
      | some wish =>
        let written := min (max wish 1) (min data.length (pwriteLimit - offset.toNat))
        writeLoop host fuel (f.write offset.toNat (data.take written)) (data.drop written) (offset + written)

def writeFull (host : Host) (f : Image) (data : Bytes) (offset : ℤ) : Option Image :=
  host.writeLoop data.length f data offset

def truncateFile (host : Host) (f : Image) (length : ℤ) : Option Image :=
  if length < 0 ∨ host.ftruncate length.toNat = false then none else some (f.truncate length.toNat)

end Host

def allZero (data : Bytes) : Bool := data.all (· = 0)

inductive Buffer
  | header
  | index
  | page
  | payload
  | output
  deriving DecidableEq

structure Access where
  buffer : Buffer
  capacity : ℕ
  start : ℤ
  length : ℕ
  deriving DecidableEq

structure Work where
  -- what stands at the output path
  output : Option Image
  accesses : List Access := []
  payloadCapacity : ℕ := 0
  reachedLoop : Bool := false

-- `goto done` raises with the text that is printed; the accesses are those to the buffers and to the output file.
abbrev Code := Raising Work String

open Raising

namespace Work

def touch (a : Access) : Code Unit := modify fun w => { w with accesses := w.accesses ++ [a] }

def setOutput (f : Image) : Code Unit := modify fun w => { w with output := some f }

def image : Code Image := get >>= fun w => pure (w.output.getD .empty)

end Work

open Work

variable (host : Host) (zstd : Zstd)

def openOutput : Code Unit :=
  get >>= fun w => require (host.opensOutput = true ∧ w.output.isNone) host.outputPath >>= fun _ => setOutput .empty

def writePage (capacity : ℕ) (piece : Bytes) (offset : ℤ) : Code Unit :=
  if allZero piece then pure ()
  else touch ⟨.output, capacity, offset, piece.length⟩ >>= fun _ => image >>= fun f =>
    ofOption "write chunk" (host.writeFull f piece offset) >>= setOutput

def writeSparseLoop (capacity : ℕ) (buffer : Bytes) (page : ℕ) (offset : ℤ) : ℕ → ℕ → Code Unit
  | 0, _ => pure ()
  | fuel + 1, cursor =>
    if cursor < buffer.length then
      writePage host capacity ((buffer.drop cursor).take page) (offset + cursor) >>= fun _ =>
        writeSparseLoop capacity buffer page offset fuel (cursor + page)
    else pure ()

def writeSparse (capacity : ℕ) (buffer : Bytes) (offset : ℤ) : Code Unit :=
  require (0 < host.pageSize) "write chunk" >>= fun _ =>
    writeSparseLoop host capacity buffer host.pageSize.toNat offset buffer.length 0

namespace Header

def chunk (h : Header) : UInt64 := h.chunkSize.toUInt64

def wellFormed (h : Header) : Bool :=
  h.magic = PageSnapshot.magic ∧ h.version = PageSnapshot.version ∧ h.chunkSize ≠ 0 ∧
    h.chunkCount = (h.logicalSize + h.chunk - 1) / h.chunk ∧ h.indexOffset = headerSize ∧
    h.dataOffset = headerSize + h.chunkCount * entrySize

def valid (h : Header) (i : UInt64) : UInt64 :=
  if (i + 1) * h.chunk ≤ h.logicalSize then h.chunk else h.logicalSize - i * h.chunk

end Header

def entryAt (index : Bytes) (i : UInt64) : Entry :=
  Entry.parse ((index.drop (i * entrySize).toNat).take entrySize.toNat)

def growPayload (length : ℕ) : Code Unit :=
  get >>= fun w =>
    if w.payloadCapacity < length then
      require (host.malloc length = true) "payload buffer" >>= fun _ => modify fun w =>
        { w with payloadCapacity := length }
    else pure ()

def decodeEntry (container : Image) (h : Header) (e : Entry) (valid : ℕ) (offset : ℤ) : Code Unit :=
  if e.encoding = encodingHole then pure ()
  else require (e.length ≠ 0 ∧ h.dataOffset ≤ e.offset) "invalid chunk entry" >>= fun _ =>
    growPayload host e.length.toNat >>= fun _ =>
    get >>= fun w => touch ⟨.payload, w.payloadCapacity, 0, e.length.toNat⟩ >>= fun _ =>
    ofOption "read payload" (host.readFull container e.length.toNat (offT e.offset)) >>= fun frame =>
    require (e.encoding = encodingZstd) "invalid encoding" >>= fun _ =>
    touch ⟨.page, h.chunkSize.toNat, 0, valid⟩ >>= fun _ =>
    ofOption "zstd decode failed" (zstd.decompress valid frame) >>= fun page =>
    require (page.length = valid) "zstd decode failed" >>= fun _ =>
    writeSparse host h.logicalSize.toNat page offset

def decodeChunk (container : Image) (h : Header) (index : Bytes) (i : UInt64) : Code Unit :=
  decodeEntry host zstd container h (entryAt index i) (h.valid i).toNat (offT (i * h.chunk))

def decodeChunks (container : Image) (h : Header) (index : Bytes) : List ℕ → Code Unit
  | [] => pure ()
  | i :: is => decodeChunk host zstd container h index (.ofNat i) >>= fun _ => decodeChunks container h index is

def decompressBody (container : Image) : Code Unit :=
  require (host.opensInput = true) host.inputPath >>= fun _ =>
  touch ⟨.header, headerSize.toNat, 0, headerSize.toNat⟩ >>= fun _ =>
  ofOption "invalid zstd chunk snapshot" (host.readFull container headerSize.toNat 0) >>= fun bytes =>
  let h := Header.parse bytes
  let indexSize := (h.chunkCount * entrySize).toNat
  require (h.wellFormed = true) "invalid zstd chunk snapshot" >>= fun _ =>
  require (h.chunkCount ≤ sizeMax / entrySize) "" >>= fun _ =>
  require (host.malloc indexSize = true ∧ host.malloc h.chunkSize.toNat = true) "read index" >>= fun _ =>
  touch ⟨.index, indexSize, 0, indexSize⟩ >>= fun _ =>
  ofOption "read index" (host.readFull container indexSize (offT h.indexOffset)) >>= fun index =>
  openOutput host >>= fun _ => image >>= fun f =>
  ofOption host.outputPath (host.truncateFile f (offT h.logicalSize)) >>= fun f =>
  setOutput f >>= fun _ => modify (fun w => { w with reachedLoop := true }) >>= fun _ =>
  decodeChunks host zstd container h index (List.range h.chunkCount.toNat) >>= fun _ =>
  require (host.fsync = true) "sync output" >>= fun _ => require (host.fstat = true) ""

structure Exit where
  code : ℕ
  output : Option Image
  accesses : List Access
  reachedLoop : Bool

/-- The label `done`: a failed run removes what stands at the output path. -/
def leave (body : Code Unit) (previous : Option Image) : Exit :=
  match body.run { output := previous } with
  | (.ok _, w) => ⟨0, w.output, w.accesses, w.reachedLoop⟩
  | (.error _, w) => ⟨1, none, w.accesses, w.reachedLoop⟩

def decompressFile (container : Image) (previous : Option Image) : Exit :=
  leave (decompressBody host zstd container) previous

def headerOf (size : UInt64) : Header :=
  let chunkCount := (size + chunkBytes.toUInt64 - 1) / chunkBytes.toUInt64
  { magic := magic
    version := version
    chunkSize := chunkBytes
    logicalSize := size
    chunkCount := chunkCount
    indexOffset := headerSize
    dataOffset := headerSize + chunkCount * entrySize }

structure Packing where
  output : Image
  entries : List Entry
  payload : UInt64

def validFrom (h : Header) (position : UInt64) : UInt64 :=
  if position + chunkBytes.toUInt64 ≤ h.logicalSize then chunkBytes.toUInt64 else h.logicalSize - position

def encodeAt (input : Sparse) (h : Header) (position : UInt64) (valid : ℕ) (p : Packing) : Option (Packing × Bool) :=
  if host.seeks = false then none
  else match input.seekData position.toNat with
    | none => some (p, false)
    | some data =>
      if position.toNat + valid ≤ data then some (p, true)
      else match host.readFull input.toImage valid (offT position) with
        | none => none
        | some page =>
          if allZero page then some (p, true)
          else match zstd.compress (zstd.compressBound valid) page with
            | none => none
            | some frame =>
              match host.writeFull p.output frame (offT (h.dataOffset + p.payload)) with
              | none => none
              | some output =>
                some (⟨output,
                  p.entries.set (position / chunkBytes.toUInt64).toNat
                    ⟨h.dataOffset + p.payload, .ofNat frame.length, encodingZstd⟩,
                  p.payload + .ofNat frame.length⟩, true)

def encodeChunk (input : Sparse) (h : Header) (position : UInt64) (p : Packing) : Option (Packing × Bool) :=
  encodeAt host zstd input h position (validFrom h position).toNat p

def encodeChunks (input : Sparse) (h : Header) : List ℕ → Packing → Option Packing
  | [], p => some p
  | i :: is, p =>
    match encodeChunk host zstd input h (.ofNat i * chunkBytes.toUInt64) p with
    | none => none
    | some (q, false) => some q
    | some (q, true) => encodeChunks input h is q

def compressFile (input : Sparse) (previous : Option Image) : Option Image := do
  let h := headerOf (.ofNat input.size)
  guard (host.opensInput = true)
  guard (h.chunkCount ≤ sizeMax / entrySize)
  guard (host.malloc (h.chunkCount * entrySize).toNat = true ∧ host.malloc chunkBytes.toNat = true ∧
    host.malloc (zstd.compressBound chunkBytes.toNat) = true)
  guard (host.opensOutput = true ∧ previous.isNone)
  let f ← host.truncateFile .empty (offT h.dataOffset)
  let f ← host.writeFull f h.bytes 0
  let p ← encodeChunks host zstd input h (List.range h.chunkCount.toNat)
    ⟨f, List.replicate h.chunkCount.toNat {}, 0⟩
  let f ← host.writeFull p.output (p.entries.flatMap Entry.bytes) (offT h.indexOffset)
  let f ← host.truncateFile f (offT (h.dataOffset + p.payload))
  guard (host.fsync = true ∧ host.fstat = true)
  return f

end ClawBox.PageSnapshot
