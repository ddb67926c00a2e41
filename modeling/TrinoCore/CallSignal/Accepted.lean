import TrinoCore.CallSignal.Model

/-!
What `validate_call_signal` accepts.

A derived reader takes a struct from an object and from an array of its fields, so the validator lets
through the signals it describes and the same signals without their names.
-/

namespace TrinoCore

open Serde

def CallId (callId : String) : Prop :=
  16 ≤ callId.toList.length ∧ callId.toList.length ≤ 64 ∧ ∀ c ∈ callId.toList, c.isAlphanum = true ∨ c = '_' ∨ c = '-'

def TextUpTo (limit : Nat) (v : JsonValue) : Prop := ∃ text, v = .str text ∧ text.utf8ByteSize ≤ limit

def Flag (v : JsonValue) : Prop := ∃ b, v = .bool b

def LineIndex (v : JsonValue) : Prop := ∃ n : UInt64, v = .num n ∧ n.toNat ≤ 65535

structure CandidateRules (field : String → Option JsonValue) : Prop where
  candidate : ∃ text, field "candidate" = some (.str text) ∧ 1 ≤ text.utf8ByteSize ∧ text.utf8ByteSize ≤ maxCandidateBytes
  sdpMid : UnsetOr (TextUpTo 256) (field "sdpMid")
  sdpMLineIndex : UnsetOr LineIndex (field "sdpMLineIndex")
  usernameFragment : UnsetOr (TextUpTo 256) (field "usernameFragment")

/-- What a kind of signal asks of the other fields, given what may stand for a candidate. -/
inductive KindRules (candidate : JsonValue → Prop) (field : String → Option JsonValue) : String → Prop
  | description {kind sdp : String} : kind ∈ ["offer", "answer"] → field "sdp" = some (.str sdp) →
      sdp.utf8ByteSize ≤ maxSdpBytes → "v=0".toList <+: sdp.toList → Unset (field "candidate") →
      UnsetOr Flag (field "video") → UnsetOr Flag (field "renegotiate") → KindRules candidate field kind
  | ice {v : JsonValue} : Unset (field "sdp") → field "candidate" = some v → candidate v →
      UnsetOr Flag (field "video") → UnsetOr Flag (field "renegotiate") → KindRules candidate field "ice"
  | ending {kind : String} : kind ∈ ["bye", "reject"] → Unset (field "sdp") → Unset (field "candidate") →
      Unset (field "video") → Unset (field "renegotiate") → KindRules candidate field kind

def SignalRules (candidate : JsonValue → Prop) (field : String → Option JsonValue) : Prop :=
  ∃ kind callId, field "t" = some (.str kind) ∧ field "callId" = some (.str callId) ∧ CallId callId ∧
    KindRules candidate field kind

def CallSignalObject : JsonValue → Prop :=
  ObjectOf CallSignal.fieldNames (SignalRules (ObjectOf IceCandidate.fieldNames CandidateRules))

def CallSignalStruct : JsonValue → Prop :=
  StructOf CallSignal.fieldNames (SignalRules (StructOf IceCandidate.fieldNames CandidateRules))

/-- An array in the place of the signal or of its candidate. -/
def Positional (v : JsonValue) : Prop :=
  (∃ items, v = .arr items) ∨ ∃ entries items, v = .obj entries ∧ entries.lookup "candidate" = some (.arr items)

def CallSignalSized (payload : String) : Prop := 1 ≤ payload.utf8ByteSize ∧ payload.utf8ByteSize ≤ maxCallSignalBytes

theorem isCallIdByte_ascii (b : UInt8) (good : isCallIdByte b = true) : b.toNat < 128 := by
  simp only [isCallIdByte, isAsciiAlphanumeric, Bool.or_eq_true, Bool.and_eq_true, decide_eq_true_eq, beq_iff_eq,
    UInt8.le_iff_toNat_le, ← UInt8.toNat_inj, UInt8.reduceToNat] at good
  omega

theorem isCallIdByte_ofNat {c : Char} (ascii : c.toNat < 128) :
    isCallIdByte (UInt8.ofNat c.toNat) = true ↔ c.isAlphanum = true ∨ c = '_' ∨ c = '-' := by
  have byte : (UInt8.ofNat c.toNat).toNat = c.toNat := by
    rw [UInt8.toNat_ofNat']
    omega
  have same (d : Char) : c = d ↔ c.toNat = d.toNat := by
    rw [Char.toNat_inj]
  simp only [isCallIdByte, isAsciiAlphanumeric, Bool.or_eq_true, Bool.and_eq_true, decide_eq_true_eq, beq_iff_eq,
    UInt8.le_iff_toNat_le, ← UInt8.toNat_inj, UInt8.reduceToNat, byte, isAlphanum_iff, same, Char.reduceToNat]
  omega

theorem callId_iff {callId : String} :
    (16 ≤ (utf8 callId).length ∧ (utf8 callId).length ≤ 64 ∧ (utf8 callId).all isCallIdByte = true) ↔ CallId callId := by
  have ascii {c : Char} (good : c.isAlphanum = true ∨ c = '_' ∨ c = '-') : c.toNat < 128 := by
    rcases good with alphanum | rfl | rfl
    · exact toNat_lt_of_isAlphanum alphanum
    · decide
    · decide
  have bytes : (utf8 callId).all isCallIdByte = true ↔ ∀ c ∈ callId.toList, c.isAlphanum = true ∨ c = '_' ∨ c = '-' := by
    rw [List.all_eq_true, forall_utf8_iff isCallIdByte_ascii]
    apply forall₂_congr
    intro c _
    constructor
    · rintro ⟨narrow, good⟩
      exact (isCallIdByte_ofNat narrow).mp good
    · intro good
      exact ⟨ascii good, (isCallIdByte_ofNat (ascii good)).mpr good⟩
  have length (good : ∀ c ∈ callId.toList, c.isAlphanum = true ∨ c = '_' ∨ c = '-') :
      (utf8 callId).length = callId.toList.length := by
    have single : ∀ c ∈ callId.toList, c.utf8Size = 1 := by
      intro c present
      exact Char.utf8Size_eq_one_iff.mpr (UInt32.le_iff_toNat_le.mpr (Nat.le_of_lt_succ (ascii (good c present))))
    rw [length_utf8, ← utf8ByteSize_ofList single, String.ofList_toList]
  rw [bytes, CallId]
  constructor
  · rintro ⟨low, high, good⟩
    rw [length good] at low high
    exact ⟨low, high, good⟩
  · rintro ⟨low, high, good⟩
    rw [length good]
    exact ⟨low, high, good⟩

section
variable {x : Option JsonValue}

theorem exists_required_readStr {p : String → Prop} :
    (∃ text, required readStr x = some text ∧ p text) ↔ ∃ text, x = some (.str text) ∧ p text := by
  simp [required_eq_some]

theorem exists_optional_readStr {limit : Nat} :
    (∃ text, optional readStr x = some text ∧ ∀ t ∈ text, t.utf8ByteSize ≤ limit) ↔ UnsetOr (TextUpTo limit) x := by
  rw [exists_optional rfl, UnsetOr]
  simp [TextUpTo]

theorem exists_optional_readBool : (∃ b, optional readBool x = some b) ↔ UnsetOr Flag x := by
  have null : readBool .null = none := rfl
  have every := exists_optional (x := x) null (p := fun _ => True)
  simpa [UnsetOr, Flag] using every

theorem exists_optional_readU16 : (∃ n, optional readU16 x = some n) ↔ UnsetOr LineIndex x := by
  have null : readU16 .null = none := rfl
  have every := exists_optional (x := x) null (p := fun _ => True)
  simp only [and_true, exists_and_left, readU16_isSome] at every
  exact every

end

def IceCandidate.Bounded (c : IceCandidate) : Prop :=
  1 ≤ c.candidate.utf8ByteSize ∧ c.candidate.utf8ByteSize ≤ maxCandidateBytes ∧
    (∀ text ∈ c.sdpMid, text.utf8ByteSize ≤ 256) ∧ ∀ text ∈ c.usernameFragment, text.utf8ByteSize ≤ 256

theorem checkIce_ok {signal : CallSignal} :
    signal.checkIce = .ok () ↔ signal.sdp = none ∧ ∃ c, signal.candidate = some c ∧ c.Bounded := by
  unfold CallSignal.checkIce
  cases signal.sdp with
  | some sdp => simp
  | none =>
    cases signal.candidate with
    | none => simp
    | some c =>
      rcases c with ⟨candidate, _ | mid, index, _ | fragment⟩ <;>
        simp [IceCandidate.Bounded, Nat.one_le_iff_ne_zero, and_assoc]

theorem IceCandidate.deserialize_eq_some {v : JsonValue} {c : IceCandidate} :
    deserialize v = some c ↔ ∃ field, strictFieldsOf fieldNames v = some field ∧
      required readStr (field "candidate") = some c.candidate ∧ optional readStr (field "sdpMid") = some c.sdpMid ∧
      optional readU16 (field "sdpMLineIndex") = some c.sdpMLineIndex ∧
      optional readStr (field "usernameFragment") = some c.usernameFragment := by
  unfold deserialize
  simp only [Option.bind_eq_some_iff, bind, pure, Option.some.injEq]
  constructor
  · rintro ⟨field, fields, candidate, first, mid, second, index, third, fragment, fourth, rfl⟩
    exact ⟨field, fields, first, second, third, fourth⟩
  · rintro ⟨field, fields, first, second, third, fourth⟩
    exact ⟨field, fields, _, first, _, second, _, third, _, fourth, rfl⟩

theorem exists_candidate {v : JsonValue} :
    (∃ c, IceCandidate.deserialize v = some c ∧ c.Bounded) ↔ StructOf IceCandidate.fieldNames CandidateRules v := by
  rw [← exists_strictFieldsOf]
  constructor
  · rintro ⟨c, read, low, high, mid, fragment⟩
    obtain ⟨field, fields, first, second, third, fourth⟩ := IceCandidate.deserialize_eq_some.mp read
    refine ⟨field, fields, ?_, ?_, ?_, ?_⟩
    · exact exists_required_readStr.mp ⟨_, first, low, high⟩
    · exact exists_optional_readStr.mp ⟨_, second, mid⟩
    · exact exists_optional_readU16.mp ⟨_, third⟩
    · exact exists_optional_readStr.mp ⟨_, fourth, fragment⟩
  · rintro ⟨field, fields, rules⟩
    obtain ⟨candidate, first, low, high⟩ := exists_required_readStr.mpr rules.candidate
    obtain ⟨sdpMid, second, mid⟩ := exists_optional_readStr.mpr rules.sdpMid
    obtain ⟨sdpMLineIndex, third⟩ := exists_optional_readU16.mpr rules.sdpMLineIndex
    obtain ⟨usernameFragment, fourth, fragment⟩ := exists_optional_readStr.mpr rules.usernameFragment
    refine ⟨⟨candidate, sdpMid, sdpMLineIndex, usernameFragment⟩, ?_, low, high, mid, fragment⟩
    exact IceCandidate.deserialize_eq_some.mpr ⟨field, fields, first, second, third, fourth⟩

/-! ### The kinds -/

theorem checkDescription_ok {signal : CallSignal} :
    signal.checkDescription = .ok () ↔
      (∃ sdp, signal.sdp = some sdp ∧ sdp.utf8ByteSize ≤ maxSdpBytes ∧ "v=0".toList <+: sdp.toList) ∧ signal.candidate = none := by
  unfold CallSignal.checkDescription
  cases signal.sdp with
  | none => simp
  | some sdp =>
    simp only [Option.some.injEq, exists_eq_left', ← List.isPrefixOf_iff_prefix]
    cases start : "v=0".toList.isPrefixOf sdp.toList with
    | false => simp
    | true =>
      have filled : sdp.isEmpty = false := by
        cases empty : sdp.isEmpty with
        | false => rfl
        | true =>
          rw [String.isEmpty_iff.mp empty] at start
          cases start
      by_cases large : sdp.utf8ByteSize > maxSdpBytes
      · simp [large]
      · cases signal.candidate <;> simp [filled, large, Nat.le_of_not_lt large]

theorem checkEnding_ok {signal : CallSignal} :
    signal.checkEnding = .ok () ↔
      signal.sdp = none ∧ signal.candidate = none ∧ signal.video = none ∧ signal.renegotiate = none := by
  unfold CallSignal.checkEnding
  cases signal.sdp <;> cases signal.candidate <;> cases signal.video <;> cases signal.renegotiate <;> simp

theorem checkKind_description {signal : CallSignal} (known : signal.kind ∈ ["offer", "answer"]) :
    signal.checkKind = signal.checkDescription := by
  unfold CallSignal.checkKind
  rcases List.mem_pair.mp known with kind | kind
  · rw [kind]
    rfl
  · rw [kind]
    rfl

theorem checkKind_ending {signal : CallSignal} (known : signal.kind ∈ ["bye", "reject"]) :
    signal.checkKind = signal.checkEnding := by
  unfold CallSignal.checkKind
  rcases List.mem_pair.mp known with kind | kind
  · rw [kind]
    rfl
  · rw [kind]
    rfl

/-- The fields that a signal is read from. -/
structure CallSignal.ReadFrom (field : String → Option JsonValue) (signal : CallSignal) : Prop where
  kind : required readStr (field "t") = some signal.kind
  callId : required readStr (field "callId") = some signal.callId
  sdp : optional readStr (field "sdp") = some signal.sdp
  candidate : optional IceCandidate.deserialize (field "candidate") = some signal.candidate
  video : optional readBool (field "video") = some signal.video
  renegotiate : optional readBool (field "renegotiate") = some signal.renegotiate

theorem CallSignal.deserialize_eq_some {v : JsonValue} {signal : CallSignal} :
    deserialize v = some signal ↔ ∃ field, strictFieldsOf fieldNames v = some field ∧ signal.ReadFrom field := by
  unfold deserialize
  simp only [Option.bind_eq_some_iff, bind, pure, Option.some.injEq]
  constructor
  · rintro ⟨field, fields, kind, t, callId, id, sdp, third, candidate, fourth, video, fifth, renegotiate, sixth, rfl⟩
    exact ⟨field, fields, t, id, third, fourth, fifth, sixth⟩
  · rintro ⟨field, fields, read⟩
    exact ⟨field, fields, _, read.kind, _, read.callId, _, read.sdp, _, read.candidate, _, read.video, _,
      read.renegotiate, rfl⟩

section
variable {field : String → Option JsonValue} {signal : CallSignal}

theorem kindRules_of_checkKind (read : signal.ReadFrom field) (checked : signal.checkKind = .ok ()) :
    KindRules (StructOf IceCandidate.fieldNames CandidateRules) field signal.kind := by
  obtain ⟨_, _, sdp, candidate, video, renegotiate⟩ := read
  have flags : UnsetOr Flag (field "video") ∧ UnsetOr Flag (field "renegotiate") :=
    ⟨exists_optional_readBool.mp ⟨_, video⟩, exists_optional_readBool.mp ⟨_, renegotiate⟩⟩
  have description (known : signal.kind ∈ ["offer", "answer"]) (passed : signal.checkDescription = .ok ()) :
      KindRules (StructOf IceCandidate.fieldNames CandidateRules) field signal.kind := by
    obtain ⟨⟨text, given, small, start⟩, unset⟩ := checkDescription_ok.mp passed
    rw [given, optional_eq_some rfl] at sdp
    rw [unset, optional_eq_none rfl] at candidate
    obtain ⟨v, given, read⟩ := sdp
    rw [readStr_eq_some.mp read] at given
    exact .description known given small start candidate flags.1 flags.2
  have ending (known : signal.kind ∈ ["bye", "reject"]) (passed : signal.checkEnding = .ok ()) :
      KindRules (StructOf IceCandidate.fieldNames CandidateRules) field signal.kind := by
    obtain ⟨noSdp, noCandidate, noVideo, noRenegotiate⟩ := checkEnding_ok.mp passed
    rw [noSdp, optional_eq_none rfl] at sdp
    rw [noCandidate, optional_eq_none rfl] at candidate
    rw [noVideo, optional_eq_none rfl] at video
    rw [noRenegotiate, optional_eq_none rfl] at renegotiate
    exact .ending known sdp candidate video renegotiate
  unfold CallSignal.checkKind at checked
  split at checked
  · rename_i offer
    exact description (by rw [offer]; decide) checked
  · rename_i answer
    exact description (by rw [answer]; decide) checked
  · rename_i ice
    obtain ⟨noSdp, c, given, bounded⟩ := checkIce_ok.mp checked
    rw [noSdp, optional_eq_none rfl] at sdp
    rw [given, optional_eq_some rfl] at candidate
    obtain ⟨v, place, read⟩ := candidate
    rw [ice]
    exact .ice sdp place (exists_candidate.mp ⟨c, read, bounded⟩) flags.1 flags.2
  · rename_i bye
    exact ending (by rw [bye]; decide) checked
  · rename_i reject
    exact ending (by rw [reject]; decide) checked
  · cases checked

theorem exists_checkKind {kind callId : String} (t : field "t" = some (.str kind))
    (id : field "callId" = some (.str callId)) (rules : KindRules (StructOf IceCandidate.fieldNames CandidateRules) field kind) :
    ∃ signal : CallSignal, signal.ReadFrom field ∧ signal.callId = callId ∧ signal.checkKind = .ok () := by
  have kindRead : required readStr (field "t") = some kind := required_eq_some.mpr ⟨_, t, rfl⟩
  have idRead : required readStr (field "callId") = some callId := required_eq_some.mpr ⟨_, id, rfl⟩
  cases rules with
  | @description kind sdp known given small start unset flag flag' =>
    obtain ⟨video, first⟩ := exists_optional_readBool.mpr flag
    obtain ⟨renegotiate, second⟩ := exists_optional_readBool.mpr flag'
    refine ⟨⟨kind, callId, some sdp, none, video, renegotiate⟩, ⟨kindRead, idRead, ?_, ?_, first, second⟩, rfl, ?_⟩
    · exact (optional_eq_some rfl).mpr ⟨_, given, rfl⟩
    · exact (optional_eq_none rfl).mpr unset
    · rw [checkKind_description known]
      exact checkDescription_ok.mpr ⟨⟨sdp, rfl, small, start⟩, rfl⟩
  | @ice v unset given candidate flag flag' =>
    obtain ⟨video, first⟩ := exists_optional_readBool.mpr flag
    obtain ⟨renegotiate, second⟩ := exists_optional_readBool.mpr flag'
    obtain ⟨c, read, bounded⟩ := exists_candidate.mpr candidate
    refine ⟨⟨"ice", callId, none, some c, video, renegotiate⟩, ⟨kindRead, idRead, ?_, ?_, first, second⟩, rfl, ?_⟩
    · exact (optional_eq_none rfl).mpr unset
    · exact (optional_eq_some rfl).mpr ⟨v, given, read⟩
    · exact checkIce_ok.mpr ⟨rfl, c, rfl, bounded⟩
  | @ending kind known noSdp noCandidate noVideo noRenegotiate =>
    refine ⟨⟨kind, callId, none, none, none, none⟩, ⟨kindRead, idRead, ?_, ?_, ?_, ?_⟩, rfl, ?_⟩
    · exact (optional_eq_none rfl).mpr noSdp
    · exact (optional_eq_none rfl).mpr noCandidate
    · exact (optional_eq_none rfl).mpr noVideo
    · exact (optional_eq_none rfl).mpr noRenegotiate
    · rw [checkKind_ending known]
      exact checkEnding_ok.mpr ⟨rfl, rfl, rfl, rfl⟩

end

/-! ### What passes -/

theorem check_ok {signal : CallSignal} : signal.check = .ok () ↔ CallId signal.callId ∧ signal.checkKind = .ok () := by
  have guard : ((utf8 signal.callId).length < 16 || (utf8 signal.callId).length > 64 ||
      !(utf8 signal.callId).all isCallIdByte) = false ↔ CallId signal.callId := by
    rw [← callId_iff]
    simp only [Bool.or_eq_false_iff, decide_eq_false_iff_not, Bool.not_eq_false', not_lt, gt_iff_lt, and_assoc]
  unfold CallSignal.check
  split
  · rename_i bad
    have other : ¬CallId signal.callId := by
      rw [← guard, bad]
      exact nofun
    simp [other]
  · rename_i good
    rw [and_iff_right (guard.mp (Bool.eq_false_of_not_eq_true good))]

theorem exists_signal {v : JsonValue} :
    (∃ signal, CallSignal.deserialize v = some signal ∧ signal.check = .ok ()) ↔ CallSignalStruct v := by
  rw [CallSignalStruct, ← exists_strictFieldsOf]
  constructor
  · rintro ⟨signal, deserialized, passed⟩
    obtain ⟨field, fields, read⟩ := CallSignal.deserialize_eq_some.mp deserialized
    obtain ⟨id, checked⟩ := check_ok.mp passed
    obtain ⟨_, given, rfl⟩ := exists_required_readStr.mp ⟨_, read.kind, rfl⟩
    obtain ⟨_, given', rfl⟩ := exists_required_readStr.mp ⟨_, read.callId, rfl⟩
    exact ⟨field, fields, _, _, given, given', id, kindRules_of_checkKind read checked⟩
  · rintro ⟨field, fields, kind, callId, given, given', id, rules⟩
    obtain ⟨signal, read, rfl, checked⟩ := exists_checkKind given given' rules
    exact ⟨signal, CallSignal.deserialize_eq_some.mpr ⟨field, fields, read⟩, check_ok.mpr ⟨id, checked⟩⟩

section
variable [JsonText]

theorem validateCallSignal_ok {payload : String} : validateCallSignal payload = .ok () ↔
    CallSignalSized payload ∧ ∃ v, JsonText.read payload = some v ∧ CallSignalStruct v := by
  have guard : (payload.isEmpty || payload.utf8ByteSize > maxCallSignalBytes) = false ↔ CallSignalSized payload := by
    simp only [Bool.or_eq_false_iff, decide_eq_false_iff_not, String.isEmpty, beq_eq_false_iff_ne, not_lt, gt_iff_lt,
      CallSignalSized, Nat.one_le_iff_ne_zero]
  unfold validateCallSignal
  split
  · rename_i bad
    have other : ¬CallSignalSized payload := by
      rw [← guard, bad]
      exact nofun
    simp [other]
  · rename_i good
    rw [and_iff_right (guard.mp (Bool.eq_false_of_not_eq_true good))]
    simp only [← exists_signal]
    cases JsonText.read payload with
    | none => simp
    | some v =>
      rw [Option.bind_some]
      cases read : CallSignal.deserialize v with
      | none => simp [read]
      | some signal => simp [read]

end

theorem KindRules.imp {P Q : JsonValue → Prop} {field : String → Option JsonValue} {kind : String}
    (candidate : ∀ v, field "candidate" = some v → P v → Q v) (rules : KindRules P field kind) : KindRules Q field kind := by
  cases rules with
  | description known sdp small start unset video renegotiate =>
    exact .description known sdp small start unset video renegotiate
  | ice unset given good video renegotiate => exact .ice unset given (candidate _ given good) video renegotiate
  | ending known sdp unset video renegotiate => exact .ending known sdp unset video renegotiate

theorem CallSignalObject.struct {v : JsonValue} (signal : CallSignalObject v) : CallSignalStruct v := by
  obtain ⟨entries, rfl, nodup, known, kind, callId, first, second, id, rules⟩ := signal
  exact .inl ⟨entries, rfl, nodup, known, kind, callId, first, second, id, rules.imp fun _ _ object => .inl object⟩

/-- A value that passes without being an object throughout has an array in one of the two places. -/
theorem CallSignalStruct.object {v : JsonValue} (signal : CallSignalStruct v) (named : ¬Positional v) : CallSignalObject v := by
  rcases signal with ⟨entries, rfl, nodup, known, kind, callId, first, second, id, rules⟩ | ⟨items, rfl, _⟩
  · refine ⟨entries, rfl, nodup, known, kind, callId, first, second, id, rules.imp ?_⟩
    rintro w given (object | ⟨items, rfl, _⟩)
    · exact object
    · exact absurd (.inr ⟨entries, items, rfl, given⟩) named
  · exact absurd (.inl ⟨items, rfl⟩) named

theorem CallSignalObject.not_positional {v : JsonValue} (signal : CallSignalObject v) : ¬Positional v := by
  obtain ⟨entries, rfl, _, _, kind, callId, _, _, _, rules⟩ := signal
  rintro (⟨items, same⟩ | ⟨others, items, same, array⟩)
  · cases same
  · obtain rfl := JsonValue.obj.inj same
    have set : ¬Unset (entries.lookup "candidate") := by
      rw [array]
      rintro (absent | null)
      · cases absent
      · cases null
    cases rules with
    | description _ _ _ _ unset => exact set unset
    | ice _ given object =>
      obtain ⟨_, shape, _⟩ := object
      rw [array, shape] at given
      cases given
    | ending _ _ unset => exact set unset

/-- The validator accepts a payload exactly when it holds a signal as an object, but for the signals
that are written without their names. -/
theorem validateCallSignal_object_iff [JsonText] (payload : String) :
    (validateCallSignal payload = .ok () ↔
        CallSignalSized payload ∧ ∃ v, JsonText.read payload = some v ∧ CallSignalObject v) ↔
      ¬(CallSignalSized payload ∧ ∃ v, JsonText.read payload = some v ∧ Positional v ∧ CallSignalStruct v) := by
  rw [validateCallSignal_ok]
  constructor
  · rintro objects ⟨sized, v, read, positional, signal⟩
    obtain ⟨_, w, read', object⟩ := objects.mp ⟨sized, v, read, signal⟩
    obtain rfl := Option.some.inj (read.symm.trans read')
    exact object.not_positional positional
  · intro named
    constructor
    · rintro ⟨sized, v, read, signal⟩
      exact ⟨sized, v, read, signal.object fun positional => named ⟨sized, v, read, positional, signal⟩⟩
    · rintro ⟨sized, v, read, object⟩
      exact ⟨sized, v, read, object.struct⟩

abbrev compactText : JsonText := ⟨JsonValue.parse⟩

def positionalBye : String := "[\"bye\",\"0123456789abcdef\",null,null,null,null]"

theorem validateCallSignal_positional :
    ¬(@validateCallSignal compactText positionalBye = .ok () ↔
      CallSignalSized positionalBye ∧ ∃ v, @JsonText.read compactText positionalBye = some v ∧ CallSignalObject v) := by
  have accepted : @validateCallSignal compactText positionalBye = .ok () := by decide +kernel
  have array : JsonValue.parse positionalBye =
      some (.arr [.str "bye", .str "0123456789abcdef", .null, .null, .null, .null]) := by rfl
  intro objects
  obtain ⟨_, v, read, entries, rfl, _⟩ := objects.mp accepted
  cases array.symm.trans read

end TrinoCore
