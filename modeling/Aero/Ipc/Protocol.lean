import Aero.Types
import Aero.Lib.Parse

namespace Aero.Ipc

open LeBytes

inductive Command
  | nop (seq : U32)
  | shutdown
  | mmioRead (id : U32) (addr : U64) (size : U32)
  | mmioWrite (id : U32) (addr : U64) (data : List U8)
  | portRead (id : U32) (port : U16) (size : U32)
  | portWrite (id : U32) (port : U16) (size value : U32)
  | diskRead (id : U32) (diskOffset : U64) (len : U32) (guestOffset : U64)
  | diskWrite (id : U32) (diskOffset : U64) (len : U32) (guestOffset : U64)
  deriving DecidableEq, Repr

inductive LogLevel
  | trace
  | debug
  | info
  | warn
  | error
  deriving DecidableEq, Repr

inductive Event
  | ack (seq : U32)
  | mmioReadResp (id : U32) (data : List U8)
  | portReadResp (id value : U32)
  | mmioWriteResp (id : U32)
  | portWriteResp (id : U32)
  | diskReadResp (id : U32) (ok : Bool) (bytes : U32) (errorCode : Option U32)
  | diskWriteResp (id : U32) (ok : Bool) (bytes : U32) (errorCode : Option U32)
  | frameReady (frameId : U64)
  | irqRaise (irq : U8)
  | irqLower (irq : U8)
  | a20Set (enabled : Bool)
  | resetRequest
  | log (level : LogLevel) (message : String)
  | serialOutput (port : U16) (data : List U8)
  | panic (message : String)
  | tripleFault
  deriving DecidableEq

inductive DecodeError
  | unexpectedEof
  | invalidEnum
  | invalidUtf8
  | unknownTag
  | oversizedPayload
  deriving DecidableEq, Repr

abbrev Decode := Parse DecodeError

def LogLevel.toU8 : LogLevel → U8
  | trace => 0
  | debug => 1
  | info  => 2
  | warn  => 3
  | error => 4

def LogLevel.fromU8 (v : U8) : Decode LogLevel :=
  if v = 0 then pure trace
  else if v = 1 then pure debug
  else if v = 2 then pure info
  else if v = 3 then pure warn
  else if v = 4 then pure error
  else throw .invalidEnum

def maxMessageBytes : Nat := 2 ^ 20

def cmdTagNop : U16 := 0x0000
def cmdTagShutdown : U16 := 0x0001
def cmdTagMmioRead : U16 := 0x0100
def cmdTagMmioWrite : U16 := 0x0101
def cmdTagPortRead : U16 := 0x0102
def cmdTagPortWrite : U16 := 0x0103
def cmdTagDiskRead : U16 := 0x0104
def cmdTagDiskWrite : U16 := 0x0105

def evtTagAck : U16 := 0x1000
def evtTagMmioReadResp : U16 := 0x1100
def evtTagPortReadResp : U16 := 0x1101
def evtTagMmioWriteResp : U16 := 0x1102
def evtTagPortWriteResp : U16 := 0x1103
def evtTagDiskReadResp : U16 := 0x1104
def evtTagDiskWriteResp : U16 := 0x1105
def evtTagFrameReady : U16 := 0x1200
def evtTagIrqRaise : U16 := 0x1300
def evtTagIrqLower : U16 := 0x1301
def evtTagA20Set : U16 := 0x1302
def evtTagResetRequest : U16 := 0x1303
def evtTagLog : U16 := 0x1400
def evtTagSerialOutput : U16 := 0x1500
def evtTagPanic : U16 := 0x1FFE
def evtTagTripleFault : U16 := 0x1FFF

def pushU16 (v : U16) : List U8 := toLe 2 v.toNat
def pushU32 (v : U32) : List U8 := toLe 4 v.toNat
def pushU64 (v : U64) : List U8 := toLe 8 v.toNat

def pushBytes (data : List U8) : List U8 :=
  pushU32 (BitVec.ofNat 32 data.length) ++ data

def pushBool (b : Bool) : List U8 := [if b then 1 else 0]

def asBytes (s : String) : List U8 :=
  s.toByteArray.data.toList.map UInt8.toBitVec

def encodeCommand : Command → List U8
  | .nop seq                  => pushU16 cmdTagNop ++ pushU32 seq
  | .shutdown                 => pushU16 cmdTagShutdown
  | .mmioRead id addr size    =>
    pushU16 cmdTagMmioRead ++ pushU32 id ++ pushU64 addr ++ pushU32 size
  | .mmioWrite id addr data   =>
    pushU16 cmdTagMmioWrite ++ pushU32 id ++ pushU64 addr ++ pushBytes data
  | .portRead id port size    =>
    pushU16 cmdTagPortRead ++ pushU32 id ++ pushU16 port ++ pushU32 size
  | .portWrite id port size value =>
    pushU16 cmdTagPortWrite ++ pushU32 id ++ pushU16 port ++ pushU32 size ++ pushU32 value
  | .diskRead id diskOffset len guestOffset =>
    pushU16 cmdTagDiskRead ++ pushU32 id ++ pushU64 diskOffset ++ pushU32 len
      ++ pushU64 guestOffset
  | .diskWrite id diskOffset len guestOffset =>
    pushU16 cmdTagDiskWrite ++ pushU32 id ++ pushU64 diskOffset ++ pushU32 len
      ++ pushU64 guestOffset

def pushDiskResp (id : U32) (ok : Bool) (bytes : U32) (errorCode : Option U32) : List U8 :=
  pushU32 id ++ pushBool ok ++ pushU32 bytes ++ (if ok then [] else pushU32 (errorCode.getD 0))

def encodeEvent : Event → List U8
  | .ack seq               => pushU16 evtTagAck ++ pushU32 seq
  | .mmioReadResp id data  => pushU16 evtTagMmioReadResp ++ pushU32 id ++ pushBytes data
  | .portReadResp id value => pushU16 evtTagPortReadResp ++ pushU32 id ++ pushU32 value
  | .mmioWriteResp id      => pushU16 evtTagMmioWriteResp ++ pushU32 id
  | .portWriteResp id      => pushU16 evtTagPortWriteResp ++ pushU32 id
  | .diskReadResp id ok bytes errorCode =>
    pushU16 evtTagDiskReadResp ++ pushDiskResp id ok bytes errorCode
  | .diskWriteResp id ok bytes errorCode =>
    pushU16 evtTagDiskWriteResp ++ pushDiskResp id ok bytes errorCode
  | .frameReady frameId    => pushU16 evtTagFrameReady ++ pushU64 frameId
  | .irqRaise irq          => pushU16 evtTagIrqRaise ++ [irq]
  | .irqLower irq          => pushU16 evtTagIrqLower ++ [irq]
  | .a20Set enabled        => pushU16 evtTagA20Set ++ pushBool enabled
  | .resetRequest          => pushU16 evtTagResetRequest
  | .log level message     => pushU16 evtTagLog ++ [level.toU8] ++ pushBytes (asBytes message)
  | .serialOutput port data => pushU16 evtTagSerialOutput ++ pushU16 port ++ pushBytes data
  | .panic message         => pushU16 evtTagPanic ++ pushBytes (asBytes message)
  | .tripleFault           => pushU16 evtTagTripleFault

def readU8 : Decode U8 := Parse.byte .unexpectedEof
def readU16 : Decode U16 := Parse.word .unexpectedEof 2 16
def readU32 : Decode U32 := Parse.word .unexpectedEof 4 32
def readU64 : Decode U64 := Parse.word .unexpectedEof 8 64

def readBytes32 : Decode (List U8) := do
  let len ← readU32
  Parse.take .unexpectedEof len.toNat

def fromUtf8 (bytes : List U8) : Decode String :=
  match String.fromUTF8? (bytes.map UInt8.ofBitVec).toByteArray with
  | some s => pure s
  | none   => throw .invalidUtf8

def readCommand (tag : U16) : Decode Command :=
  if tag = cmdTagNop then do
    return .nop (← readU32)
  else if tag = cmdTagShutdown then pure .shutdown
  else if tag = cmdTagMmioRead then do
    return .mmioRead (← readU32) (← readU64) (← readU32)
  else if tag = cmdTagMmioWrite then do
    return .mmioWrite (← readU32) (← readU64) (← readBytes32)
  else if tag = cmdTagPortRead then do
    return .portRead (← readU32) (← readU16) (← readU32)
  else if tag = cmdTagPortWrite then do
    return .portWrite (← readU32) (← readU16) (← readU32) (← readU32)
  else if tag = cmdTagDiskRead then do
    return .diskRead (← readU32) (← readU64) (← readU32) (← readU64)
  else if tag = cmdTagDiskWrite then do
    return .diskWrite (← readU32) (← readU64) (← readU32) (← readU64)
  else
    throw .unknownTag

def readDiskResp (resp : U32 → Bool → U32 → Option U32 → Event) : Decode Event := do
  let id ← readU32
  let ok := (← readU8) != 0
  let bytes ← readU32
  if ok then return resp id ok bytes none
  else return resp id ok bytes (some (← readU32))

def readEvent (tag : U16) : Decode Event :=
  if tag = evtTagAck then do
    return .ack (← readU32)
  else if tag = evtTagMmioReadResp then do
    return .mmioReadResp (← readU32) (← readBytes32)
  else if tag = evtTagPortReadResp then do
    return .portReadResp (← readU32) (← readU32)
  else if tag = evtTagMmioWriteResp then do
    return .mmioWriteResp (← readU32)
  else if tag = evtTagPortWriteResp then do
    return .portWriteResp (← readU32)
  else if tag = evtTagDiskReadResp then readDiskResp .diskReadResp
  else if tag = evtTagDiskWriteResp then readDiskResp .diskWriteResp
  else if tag = evtTagFrameReady then do
    return .frameReady (← readU64)
  else if tag = evtTagIrqRaise then do
    return .irqRaise (← readU8)
  else if tag = evtTagIrqLower then do
    return .irqLower (← readU8)
  else if tag = evtTagA20Set then do
    return .a20Set ((← readU8) != 0)
  else if tag = evtTagResetRequest then pure .resetRequest
  else if tag = evtTagLog then do
    let level ← LogLevel.fromU8 (← readU8)
    return .log level (← fromUtf8 (← readBytes32))
  else if tag = evtTagSerialOutput then do
    return .serialOutput (← readU16) (← readBytes32)
  else if tag = evtTagPanic then do
    return .panic (← fromUtf8 (← readBytes32))
  else if tag = evtTagTripleFault then pure .tripleFault
  else
    throw .unknownTag

def decodeMessage {α : Type} (read : U16 → Decode α) (bytes : List U8) : Except DecodeError α :=
  if bytes.length > maxMessageBytes then .error .oversizedPayload
  else
    match (readU16 >>= read).run bytes with
    | .error e          => .error e
    | .ok (msg, [])     => .ok msg
    | .ok (_, _ :: _)   => .error .unknownTag

def decodeCommand : List U8 → Except DecodeError Command :=
  decodeMessage readCommand

def decodeEvent : List U8 → Except DecodeError Event :=
  decodeMessage readEvent

end Aero.Ipc
