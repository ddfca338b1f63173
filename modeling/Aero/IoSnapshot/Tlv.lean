import Aero.Types
import Aero.Lib.Parse

namespace Aero.IoSnapshot

open LeBytes

structure SnapshotVersion where
  major : U16
  minor : U16
  deriving DecidableEq

inductive SnapshotError
  | unexpectedEof
  | invalidMagic
  | unsupportedFormatVersion (found supported : SnapshotVersion)
  | deviceIdMismatch (expected found : List U8)
  | unsupportedDeviceMajorVersion (found supported : U16)
  | duplicateFieldTag (tag : U16)
  | invalidFieldEncoding (message : String)
  deriving DecidableEq

def magic : List U8 := [0x41, 0x45, 0x52, 0x4f]
def formatVersion : SnapshotVersion := ⟨1, 0⟩
def headerLen : Nat := 4 + 2 + 2 + 4 + 2 + 2
def maxFields : Nat := 4096

abbrev Fields := List (U16 × List U8)

structure SnapshotWriter where
  deviceId : List U8
  deviceVersion : SnapshotVersion
  fields : Fields

namespace SnapshotWriter

def new (deviceId : List U8) (deviceVersion : SnapshotVersion) : SnapshotWriter :=
  ⟨deviceId, deviceVersion, []⟩

-- The value of a tag is replaced.
def insertField (tag : U16) (bytes : List U8) : Fields → Fields
  | [] => [(tag, bytes)]
  | (t, b) :: fields =>
    if tag < t then (tag, bytes) :: (t, b) :: fields
    else if tag = t then (tag, bytes) :: fields
    else (t, b) :: insertField tag bytes fields

def fieldBytes (w : SnapshotWriter) (tag : U16) (bytes : List U8) : SnapshotWriter :=
  { w with fields := insertField tag bytes w.fields }

def fieldU64 (w : SnapshotWriter) (tag : U16) (val : U64) : SnapshotWriter :=
  w.fieldBytes tag (toLe 8 val.toNat)

def writeAll (w : SnapshotWriter) (writes : Fields) : SnapshotWriter :=
  writes.foldl (fun w f => w.fieldBytes f.1 f.2) w

def encodeField (field : U16 × List U8) : List U8 :=
  toLe 2 field.1.toNat ++ toLe 4 field.2.length ++ field.2

def finish (w : SnapshotWriter) : List U8 :=
  magic ++ toLe 2 formatVersion.major.toNat ++ toLe 2 formatVersion.minor.toNat ++ w.deviceId ++
    toLe 2 w.deviceVersion.major.toNat ++ toLe 2 w.deviceVersion.minor.toNat ++
    w.fields.flatMap encodeField

end SnapshotWriter

abbrev Decode := Parse SnapshotError

def decodeU8 : Decode U8 := Parse.byte .unexpectedEof
def decodeU16 : Decode U16 := Parse.word .unexpectedEof 2 16
def decodeU32 : Decode U32 := Parse.word .unexpectedEof 4 32
def decodeU64 : Decode U64 := Parse.word .unexpectedEof 8 64

def decodeFinish : Decode Unit := fun bytes =>
  if bytes = [] then .ok ((), []) else .error (.invalidFieldEncoding "trailing bytes")

structure SnapshotReader where
  deviceVersion : SnapshotVersion
  fields : Fields

namespace SnapshotReader

def decodeField : Decode (U16 × List U8) := do
  let tag ← decodeU16
  let len ← decodeU32
  let data ← Parse.take .unexpectedEof len.toNat
  pure (tag, data)

-- A field takes at least six bytes, so that the length of the input is enough rounds.
def parseFields : Nat → Fields → List U8 → Except SnapshotError Fields
  | _, fields, [] => .ok fields
  | 0, _, _       => .error .unexpectedEof
  | rounds + 1, fields, bytes => do
    let ((tag, data), rest) ← decodeField.run bytes
    if fields.length ≥ maxFields then .error (.invalidFieldEncoding "too many fields")
    else if (fields.lookup tag).isSome then .error (.duplicateFieldTag tag)
    else parseFields rounds (fields ++ [(tag, data)]) rest

def decodeHeader (expectedDeviceId : List U8) : Decode SnapshotVersion := do
  let found ← Parse.take .unexpectedEof 4
  if found ≠ magic then
    throw .invalidMagic
  let major ← decodeU16
  let minor ← decodeU16
  if major ≠ formatVersion.major then
    throw (.unsupportedFormatVersion ⟨major, minor⟩ formatVersion)
  let deviceId ← Parse.take .unexpectedEof 4
  if deviceId ≠ expectedDeviceId then
    throw (.deviceIdMismatch expectedDeviceId deviceId)
  let major ← decodeU16
  let minor ← decodeU16
  pure ⟨major, minor⟩

def parse (bytes : List U8) (expectedDeviceId : List U8) : Except SnapshotError SnapshotReader :=
  if bytes.length < headerLen then .error .unexpectedEof
  else do
    let (deviceVersion, rest) ← (decodeHeader expectedDeviceId).run bytes
    let fields ← parseFields rest.length [] rest
    .ok ⟨deviceVersion, fields⟩

def ensureDeviceMajor (r : SnapshotReader) (supportedMajor : U16) : Except SnapshotError Unit :=
  if r.deviceVersion.major ≠ supportedMajor then
    .error (.unsupportedDeviceMajorVersion r.deviceVersion.major supportedMajor)
  else
    .ok ()

def bytes (r : SnapshotReader) (tag : U16) : Option (List U8) :=
  r.fields.lookup tag

def u64 (r : SnapshotReader) (tag : U16) : Except SnapshotError (Option U64) :=
  match r.bytes tag with
  | none       => .ok none
  | some bytes =>
    if bytes.length ≠ 8 then .error (.invalidFieldEncoding "u64")
    else .ok (some (BitVec.ofNat 64 (ofLe bytes)))

end SnapshotReader

end Aero.IoSnapshot
