import TrinoCore.Lib.Bytes
import TrinoCore.Lib.Serde

/-!
The call signals of `call_signal.rs`. Lengths are in bytes, as `len` gives them.
-/

namespace TrinoCore

open Serde (strictFieldsOf readStr readBool readU16 required optional)

/-- The text layer of `serde_json` under a derived reader: the value a text holds, with every entry of
an object in its place. -/
class JsonText where
  read : String → Option JsonValue

def maxCallSignalBytes : Nat := 64 * 1024
def maxSdpBytes : Nat := 56 * 1024
def maxCandidateBytes : Nat := 4096

structure IceCandidate where
  candidate : String
  sdpMid : Option String
  sdpMLineIndex : Option UInt16
  usernameFragment : Option String

structure CallSignal where
  kind : String
  callId : String
  sdp : Option String
  candidate : Option IceCandidate
  video : Option Bool
  renegotiate : Option Bool

/-! ### The derived decoding -/

def IceCandidate.fieldNames : List String := ["candidate", "sdpMid", "sdpMLineIndex", "usernameFragment"]

def IceCandidate.deserialize (v : JsonValue) : Option IceCandidate :=
  (strictFieldsOf fieldNames v).bind fun field => do
    let candidate ← required readStr (field "candidate")
    let sdpMid ← optional readStr (field "sdpMid")
    let sdpMLineIndex ← optional readU16 (field "sdpMLineIndex")
    let usernameFragment ← optional readStr (field "usernameFragment")
    return { candidate, sdpMid, sdpMLineIndex, usernameFragment }

def CallSignal.fieldNames : List String := ["t", "callId", "sdp", "candidate", "video", "renegotiate"]

def CallSignal.deserialize (v : JsonValue) : Option CallSignal :=
  (strictFieldsOf fieldNames v).bind fun field => do
    let kind ← required readStr (field "t")
    let callId ← required readStr (field "callId")
    let sdp ← optional readStr (field "sdp")
    let candidate ← optional IceCandidate.deserialize (field "candidate")
    let video ← optional readBool (field "video")
    let renegotiate ← optional readBool (field "renegotiate")
    return { kind, callId, sdp, candidate, video, renegotiate }

def isAsciiAlphanumeric (b : UInt8) : Bool :=
  (0x30 ≤ b && b ≤ 0x39) || (0x41 ≤ b && b ≤ 0x5A) || (0x61 ≤ b && b ≤ 0x7A)

def isCallIdByte (b : UInt8) : Bool := isAsciiAlphanumeric b || b == 0x5F || b == 0x2D

/-- The branch of `"offer"` and `"answer"`. -/
def CallSignal.checkDescription (signal : CallSignal) : Except String Unit :=
  match signal.sdp with
  | none => .error "SDP is required"
  | some sdp =>
    if sdp.isEmpty || sdp.utf8ByteSize > maxSdpBytes || !"v=0".toList.isPrefixOf sdp.toList then .error "invalid SDP"
    else if signal.candidate.isSome then .error "unexpected ICE candidate"
    else .ok ()

def CallSignal.checkIce (signal : CallSignal) : Except String Unit :=
  if signal.sdp.isSome then .error "unexpected SDP"
  else
    match signal.candidate with
    | none => .error "ICE candidate is required"
    | some candidate =>
      if candidate.candidate.isEmpty || candidate.candidate.utf8ByteSize > maxCandidateBytes ||
          candidate.sdpMid.any (·.utf8ByteSize > 256) || candidate.usernameFragment.any (·.utf8ByteSize > 256) then
        .error "invalid ICE candidate"
      else .ok ()

/-- The branch of `"bye"` and `"reject"`. -/
def CallSignal.checkEnding (signal : CallSignal) : Except String Unit :=
  if signal.sdp.isSome || signal.candidate.isSome || signal.video.isSome || signal.renegotiate.isSome then
    .error "unexpected call signal fields"
  else .ok ()

def CallSignal.checkKind (signal : CallSignal) : Except String Unit :=
  match signal.kind with
  | "offer" | "answer" => signal.checkDescription
  | "ice" => signal.checkIce
  | "bye" | "reject" => signal.checkEnding
  | _ => .error "unsupported call signal type"

def CallSignal.check (signal : CallSignal) : Except String Unit :=
  if (utf8 signal.callId).length < 16 || (utf8 signal.callId).length > 64 || !(utf8 signal.callId).all isCallIdByte then
    .error "invalid call id"
  else signal.checkKind

def validateCallSignal [JsonText] (payload : String) : Except String Unit :=
  if payload.isEmpty || payload.utf8ByteSize > maxCallSignalBytes then .error "call signal is empty or too large"
  else
    match (JsonText.read payload).bind CallSignal.deserialize with
    | none => .error "call signal is malformed"
    | some signal => signal.check

end TrinoCore
