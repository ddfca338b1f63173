import Aero.Types
import Aero.Lib.Hoare
import Aero.Lib.Parse

namespace Aero.Snapshot

open LeBytes Hoare

inductive SnapshotError
  | io
  | corrupt (message : String)
  | ramLenMismatch (expected found : U64)
  | lz4Decompress
  | dirtyPageSizeMismatch (options dirtyPageSize : U32)
  | ram (code : Nat)
  deriving DecidableEq

inductive RamMode
  | full
  | dirty
  deriving DecidableEq, Repr

inductive Compression
  | none
  | lz4
  deriving DecidableEq, Repr

def RamMode.toU8 : RamMode → U8
  | full  => 0
  | dirty => 1

def RamMode.fromU8 (v : U8) : Except SnapshotError RamMode :=
  if v = 0 then .ok full
  else if v = 1 then .ok dirty
  else .error (.corrupt "invalid ram mode")

def Compression.toU8 : Compression → U8
  | none => 0
  | lz4  => 1

def Compression.fromU8 (v : U8) : Except SnapshotError Compression :=
  if v = 0 then .ok none
  else if v = 1 then .ok lz4
  else .error (.corrupt "invalid compression kind")

structure RamWriteOptions where
  mode : RamMode
  compression : Compression
  pageSize : U32
  chunkSize : U32

def maxPageSize : Nat := 2 * 1024 * 1024
def maxChunkSize : Nat := 64 * 1024 * 1024

-- The block format of `lz4_flex`. A compression is given the length of its output buffer, and a
-- decompression that succeeds writes a start of its output buffer.
structure Lz4 where
  compressInto : List U8 → Nat → Option (List U8)
  decompress : List U8 → Option (List U8)
  getMaximumOutputSize : Nat → Nat

namespace Lz4

def maxCompressedLen (lz : Lz4) (uncompressedLen : Nat) : Nat :=
  lz.getMaximumOutputSize uncompressedLen % 2 ^ 32

def decompressInto (lz : Lz4) (compressed output : List U8) : Option (List U8) := do
  let bytes ← lz.decompress compressed
  if bytes.length ≤ output.length then some (bytes ++ output.drop bytes.length)
  else none

end Lz4

section Encode

variable (lz : Lz4) (readRam : Nat → Nat → Except SnapshotError (List U8))

def encodePayload (compression : Compression) (size : Nat) (data : List U8) :
    Except SnapshotError (List U8) :=
  match compression with
  | .none => .ok data
  | .lz4  =>
    match lz.compressInto data (lz.maxCompressedLen size) with
    | some payload => .ok payload
    | none         => .error (.corrupt "lz4 compression failed")

-- Every round takes at least one byte.
def encodeFullLoop (compression : Compression) (totalLen chunkSize : Nat) :
    Nat → Nat → Except SnapshotError (List U8)
  | 0,          _      => .ok []
  | rounds + 1, offset =>
    if offset < totalLen then do
      let uncompressedLen := min (totalLen - offset) chunkSize
      let data ← readRam offset uncompressedLen
      if uncompressedLen ≥ 2 ^ 32 then .error (.corrupt "chunk too large")
      else do
        let payload ← encodePayload lz compression chunkSize data
        if payload.length ≥ 2 ^ 32 then .error (.corrupt "compressed chunk too large")
        else do
          let rest ← encodeFullLoop compression totalLen chunkSize rounds (offset + uncompressedLen)
          .ok (toLe 4 uncompressedLen ++ toLe 4 payload.length ++ payload ++ rest)
    else
      .ok []

def encodeFull (totalLen : Nat) (opts : RamWriteOptions) : Except SnapshotError (List U8) := do
  let chunks ← encodeFullLoop lz readRam opts.compression totalLen opts.chunkSize.toNat totalLen 0
  .ok (toLe 4 opts.chunkSize.toNat ++ chunks)

def dedup : List Nat → List Nat
  | a :: b :: l => if a = b then dedup (b :: l) else a :: dedup (b :: l)
  | l           => l

def encodePages (compression : Compression) (totalLen pageSize : Nat) :
    List Nat → Except SnapshotError (List U8)
  | []               => .ok []
  | pageIdx :: pages =>
    if pageIdx * pageSize ≥ 2 ^ 64 then .error (.corrupt "dirty page offset overflow")
    else if pageIdx * pageSize ≥ totalLen then .error (.corrupt "dirty page out of range")
    else do
      let uncompressedLen := min (totalLen - pageIdx * pageSize) pageSize
      let data ← readRam (pageIdx * pageSize) uncompressedLen
      let payload ← encodePayload lz compression pageSize data
      let rest ← encodePages compression totalLen pageSize pages
      .ok (toLe 8 pageIdx ++ toLe 4 uncompressedLen ++ toLe 4 payload.length ++ payload ++ rest)

def sortedPages (dirtyPages : List U64) : List Nat :=
  dedup ((dirtyPages.map (·.toNat)).insertionSort (· ≤ ·))

def encodeDirty (totalLen : Nat) (opts : RamWriteOptions) (dirtyPages : List U64) :
    Except SnapshotError (List U8) :=
  let pages := sortedPages dirtyPages
  if pages.length ≥ 2 ^ 64 then .error (.corrupt "too many dirty pages")
  else do
    let encoded ← encodePages lz readRam opts.compression totalLen opts.pageSize.toNat pages
    .ok (toLe 8 pages.length ++ encoded)

def encodeHeader (totalLen : U64) (opts : RamWriteOptions) : List U8 :=
  toLe 8 totalLen.toNat ++ toLe 4 opts.pageSize.toNat ++ [opts.mode.toU8] ++
    [opts.compression.toU8] ++ toLe 2 0

def encodeBody (totalLen : Nat) (opts : RamWriteOptions) (dirtyPages : Option (List U64)) :
    Except SnapshotError (List U8) :=
  match opts.mode, dirtyPages with
  | .full,  _          => encodeFull lz readRam totalLen opts
  | .dirty, none       => .error (.corrupt "dirty ram mode requires dirty page list")
  | .dirty, some pages => encodeDirty lz readRam totalLen opts pages

def encodeRamSection (totalLen : U64) (opts : RamWriteOptions) (dirtyPages : Option (List U64)) :
    Except SnapshotError (List U8) :=
  if opts.pageSize = 0 ∨ opts.pageSize.toNat > maxPageSize then
    .error (.corrupt "invalid page size")
  else if opts.chunkSize = 0 ∨ opts.chunkSize.toNat > maxChunkSize then
    .error (.corrupt "invalid chunk size")
  else do
    let body ← encodeBody lz readRam totalLen.toNat opts dirtyPages
    .ok (encodeHeader totalLen opts ++ body)

-- The section as `save_snapshot` writes it, with what the source gave for its dirty pages.
def saveRamSection (totalLen : U64) (opts : RamWriteOptions) (dirtyPages : Option (List U64)) :
    Except SnapshotError (List U8) :=
  match opts.mode, dirtyPages with
  | .full,  _               => encodeRamSection lz readRam totalLen opts none
  | .dirty, none            => .error (.corrupt "dirty-page tracking not available")
  | .dirty, some dirtyPages =>
    if opts.pageSize = 0 then .error (.corrupt "invalid page size")
    else if totalLen.toNat + (opts.pageSize.toNat - 1) ≥ 2 ^ 64 then
      .error (.corrupt "ram length overflow")
    else
      let maxPages := (totalLen.toNat + (opts.pageSize.toNat - 1)) / opts.pageSize.toNat
      if dirtyPages.any (·.toNat ≥ maxPages) then .error (.corrupt "dirty page out of range")
      else encodeRamSection lz readRam totalLen opts (some dirtyPages)

end Encode

abbrev RamWrite := Nat × List U8

-- What is left of the input, the buffer for decompressed data, and the writes so far.
structure DecodeState where
  input : List U8
  decompressed : List U8
  writes : List RamWrite

abbrev Decode := EStateM SnapshotError DecodeState

def read {α : Type} (p : Parse SnapshotError α) : Decode α := fun s =>
  match p.run s.input with
  | .ok (a, rest) => .ok a { s with input := rest }
  | .error e      => .error e s

def readU8 : Decode U8 := read (Parse.byte .io)
def readU16Le : Decode U16 := read (Parse.word .io 2 16)
def readU32Le : Decode U32 := read (Parse.word .io 4 32)
def readU64Le : Decode U64 := read (Parse.word .io 8 64)
def readExact (len : Nat) : Decode (List U8) := read (Parse.take .io len)

section Decode

-- The target answers each write, and can do so by all the writes up to it.
variable (lz : Lz4) (answer : List RamWrite → Except SnapshotError Unit)

def writeRam (offset : Nat) (data : List U8) : Decode Unit := do
  modify fun s => { s with writes := s.writes ++ [(offset, data)] }
  let s ← get
  liftM (answer s.writes)

def lz4DecompressInto (compressed : List U8) (uncompressedLen : Nat) : Decode (List U8) := do
  let s ← get
  match lz.decompressInto compressed (s.decompressed.take uncompressedLen) with
  | none     => throw .lz4Decompress
  | some out => do
    modify fun s => { s with decompressed := out ++ s.decompressed.drop uncompressedLen }
    pure out

def validateCompressedLen (compression : Compression) (uncompressedLen compressedLen : Nat) :
    Except SnapshotError Unit :=
  match compression with
  | .none =>
    if compressedLen ≠ uncompressedLen then
      .error (.corrupt "compressed_len must equal uncompressed_len for no compression")
    else
      .ok ()
  | .lz4 =>
    if compressedLen > lz.maxCompressedLen uncompressedLen then
      .error (.corrupt "lz4 chunk too large")
    else
      .ok ()

def decodePayload (compression : Compression) (offset uncompressedLen : Nat) : Decode Unit := do
  let compressedLen ← readU32Le
  liftM (validateCompressedLen lz compression uncompressedLen compressedLen.toNat)
  let compressed ← readExact compressedLen.toNat
  match compression with
  | .none => writeRam answer offset compressed
  | .lz4  => do
    let out ← lz4DecompressInto lz compressed uncompressedLen
    writeRam answer offset out

def allocDecompressed (compression : Compression) (size : Nat) : Decode Unit :=
  match compression with
  | .none => pure ()
  | .lz4  => modify fun s => { s with decompressed := List.replicate size 0 }

def decodeFullLoop (compression : Compression) (totalLen chunkSize : Nat) :
    Nat → Nat → Decode Unit
  | 0,          _      => pure ()
  | rounds + 1, offset =>
    if offset < totalLen then do
      let uncompressedLen ← readU32Le
      if uncompressedLen.toNat ≠ min (totalLen - offset) chunkSize then
        throw (.corrupt "chunk uncompressed length mismatch")
      else do
        decodePayload lz answer compression offset uncompressedLen.toNat
        decodeFullLoop compression totalLen chunkSize rounds (offset + uncompressedLen.toNat)
    else
      pure ()

def decodeFull (totalLen : Nat) (compression : Compression) : Decode Unit := do
  let chunkSize ← readU32Le
  if chunkSize = 0 ∨ chunkSize.toNat > maxChunkSize then throw (.corrupt "invalid chunk size")
  else do
    allocDecompressed compression chunkSize.toNat
    decodeFullLoop lz answer compression totalLen chunkSize.toNat totalLen 0

def decodePages (compression : Compression) (totalLen pageSize : Nat) :
    Nat → Option Nat → Decode Unit
  | 0,         _           => pure ()
  | count + 1, prevPageIdx => do
    let pageIdx ← readU64Le
    if prevPageIdx.any (pageIdx.toNat ≤ ·) then
      throw (.corrupt "dirty page list not strictly increasing")
    else if pageIdx.toNat * pageSize ≥ 2 ^ 64 then throw (.corrupt "dirty page offset overflow")
    else if pageIdx.toNat * pageSize ≥ totalLen then throw (.corrupt "dirty page out of range")
    else do
      let uncompressedLen ← readU32Le
      if uncompressedLen.toNat ≠ min (totalLen - pageIdx.toNat * pageSize) pageSize then
        throw (.corrupt "dirty page uncompressed length mismatch")
      else do
        decodePayload lz answer compression (pageIdx.toNat * pageSize) uncompressedLen.toNat
        decodePages compression totalLen pageSize count (some pageIdx.toNat)

def decodeDirty (totalLen pageSize : Nat) (compression : Compression) : Decode Unit := do
  let count ← readU64Le
  if totalLen + (pageSize - 1) ≥ 2 ^ 64 then throw (.corrupt "ram length overflow")
  else if count.toNat > (totalLen + (pageSize - 1)) / pageSize then
    throw (.corrupt "too many dirty pages")
  else do
    allocDecompressed compression pageSize
    decodePages lz answer compression totalLen pageSize count.toNat none

def decodeBody (mode : RamMode) (totalLen pageSize : Nat) (compression : Compression) :
    Decode Unit :=
  match mode with
  | .full  => decodeFull lz answer totalLen compression
  | .dirty => decodeDirty lz answer totalLen pageSize compression

def decodeRamSectionInto (expectedTotalLen : U64) : Decode Unit := do
  let totalLen ← readU64Le
  if totalLen ≠ expectedTotalLen then throw (.ramLenMismatch expectedTotalLen totalLen)
  else do
    let pageSize ← readU32Le
    if pageSize = 0 ∨ pageSize.toNat > maxPageSize then throw (.corrupt "invalid page size")
    else do
      let mode ← readU8
      let mode ← liftM (RamMode.fromU8 mode)
      let compression ← readU8
      let compression ← liftM (Compression.fromU8 compression)
      let _ ← readU16Le
      decodeBody lz answer mode totalLen.toNat pageSize.toNat compression

end Decode

end Aero.Snapshot
