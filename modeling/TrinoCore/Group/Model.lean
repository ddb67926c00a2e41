import TrinoCore.Identity.Model
import TrinoCore.Lib.Json

/-! Signed group rosters, as in `group.rs`. -/

namespace TrinoCore

def maxGroupMembers : Nat := 128
def rosterSigDomain : Bytes := utf8 "trino/roster/v2\x00"

inductive RosterError where
  | empty
  | tooManyMembers (count : Nat)
  | adminNotMember
  | duplicateMember
  | invalidMemberBinding (index : Nat)
  | invalidSignature
  deriving DecidableEq

inductive GroupError where
  | notAdmin
  | removeAdmin
  | hex
  | full
  | invalidRoster (error : RosterError)
  deriving DecidableEq

inductive RosterRejection where
  | senderNotAdmin
  | notAMember
  | groupMismatch
  | adminChanged
  | stale
  | invalid (error : RosterError)
  deriving DecidableEq

inductive RosterDecision where
  | accept
  | pendingInvite
  | reject (why : RosterRejection)
  deriving DecidableEq

structure FileRef where
  url : String
  key : String
  sha256 : String
  mime : String
  name : String
  size : UInt64
  thumb : Option String
  deriving DecidableEq

structure MemberBundle where
  handle : String
  ikSignPub : String
  ikDhPub : String
  nostrPub : String
  spkId : UInt32
  spkPub : String
  spkSig : String
  idSig : String
  deriving DecidableEq

def MemberBundle.fromPublicBundle (handle : String) (bundle : PublicBundle) : MemberBundle :=
  { handle
    ikSignPub := bundle.ikSignPub
    ikDhPub := bundle.ikDhPub
    nostrPub := bundle.nostrPub
    spkId := bundle.spkId
    spkPub := bundle.spkPub
    spkSig := bundle.spkSig
    idSig := bundle.idSig }

def MemberBundle.toPublicBundle (m : MemberBundle) : PublicBundle :=
  { ikSignPub := m.ikSignPub
    ikDhPub := m.ikDhPub
    nostrPub := m.nostrPub
    spkId := m.spkId
    spkPub := m.spkPub
    spkSig := m.spkSig
    opkId := none
    opkPub := none
    idSig := m.idSig }

structure GroupRoster where
  groupId : String
  name : String
  photo : Option FileRef
  adminPub : String
  members : List MemberBundle
  epoch : UInt64
  signature : String
  deriving DecidableEq

/-! ### The bytes the admin signs -/

def photoJson : Option FileRef → Json
  | some p => .arr [.str p.url, .str p.key, .str p.sha256, .str p.mime, .str p.name, .num p.size.toNat]
  | none => .null

def memberJson (m : MemberBundle) : Json :=
  .arr [.str m.ikSignPub, .str m.ikDhPub, .str m.nostrPub, .num m.spkId.toNat, .str m.spkPub, .str m.spkSig,
    .str m.idSig, .str m.handle]

def textLe (v w : Json) : Bool := utf8 v.render ≤ utf8 w.render

def sortedMembers (members : List MemberBundle) : List Json := (members.map memberJson).mergeSort textLe

def rosterSigningBytes (groupId name : String) (photo : Option FileRef) (adminPub : String)
    (members : List MemberBundle) (epoch : UInt64) : Bytes :=
  let body : Json :=
    .arr [.str groupId, .str name, photoJson photo, .str adminPub, .arr (sortedMembers members), .num epoch.toNat]
  rosterSigDomain ++ utf8 body.render

def GroupRoster.signingBytes (r : GroupRoster) : Bytes :=
  rosterSigningBytes r.groupId r.name r.photo r.adminPub r.members r.epoch

/-! ### Validation -/

def Group.decode64 (s : String) : Except GroupError Bytes64 :=
  match Hex.decode s with
  | none => .error .hex
  | some v =>
    match ByteVec.ofBytes? 64 v with
    | none => .error .hex
    | some a => .ok a

def Group.decode32 (s : String) : Except GroupError Bytes32 :=
  match Hex.decode s with
  | none => .error .hex
  | some v =>
    match ByteVec.ofBytes? 32 v with
    | none => .error .hex
    | some a => .ok a

def isCanonicalHex (s : String) (len : Nat) : Bool :=
  s.utf8ByteSize = len * 2 && (utf8 s).all fun b => (48 ≤ b && b ≤ 57) || (97 ≤ b && b ≤ 102)

def isMember (roster : GroupRoster) (ikSignPub : String) : Bool :=
  roster.members.any fun m => m.ikSignPub = ikSignPub

/-- The loop over all keys with the set of those seen: it stops at the first repeated one. -/
def allFresh (seen : List String) : List String → Bool
  | [] => true
  | key :: rest => if key ∈ seen then false else allFresh (key :: seen) rest

def memberKeys (members : List MemberBundle) : List String :=
  members.flatMap fun m => [m.ikSignPub, m.ikDhPub, m.nostrPub]

section
variable [Signatures]

def memberIsBound (m : MemberBundle) : Bool :=
  isCanonicalHex m.ikSignPub 32 && isCanonicalHex m.ikDhPub 32 && isCanonicalHex m.nostrPub 32 &&
    isCanonicalHex m.spkPub 32 && isCanonicalHex m.spkSig 64 && isCanonicalHex m.idSig 64 &&
    verifyBundleBinding m.toPublicBundle

/-- Cheapest checks first; any failure rejects the whole roster. -/
def validateRoster (roster : GroupRoster) : Except RosterError Unit := do
  let count := roster.members.length
  if count = 0 then throw .empty
  if count > maxGroupMembers then throw (.tooManyMembers count)
  if !isMember roster roster.adminPub then throw .adminNotMember
  if !allFresh [] (memberKeys roster.members) then throw .duplicateMember
  match roster.members.findIdx? fun m => !memberIsBound m with
  | some i => throw (.invalidMemberBinding i)
  | none =>
    match Group.decode32 roster.adminPub, Group.decode64 roster.signature with
    | .ok adminPub, .ok sig => if !ed25519Verify adminPub roster.signingBytes sig then throw .invalidSignature
    | _, _ => throw .invalidSignature

def verifyRoster (roster : GroupRoster) : Bool :=
  match validateRoster roster with
  | .ok _ => true
  | .error _ => false

/-! ### What the admin does -/

def signUnsigned (groupId name : String) (photo : Option FileRef) (adminPub : String) (members : List MemberBundle)
    (epoch : UInt64) (admin : Identity) : Except GroupError GroupRoster := do
  if members.length > maxGroupMembers then throw .full
  let bytes := rosterSigningBytes groupId name photo adminPub members epoch
  let sig := ed25519Sign admin.ikSign bytes
  let roster := { groupId, name, photo, adminPub, members, epoch, signature := Hex.encode sig.toList }
  -- A roster the members would reject is never handed out.
  (validateRoster roster).mapError .invalidRoster
  return roster

def createGroup (admin : Identity) (adminBundle : MemberBundle) (name : String) (seed : Bytes32) :
    Except GroupError GroupRoster :=
  signUnsigned (Hex.encode seed.toList) name none adminBundle.ikSignPub [adminBundle] 0 admin

omit [Signatures] in
def assertAdmin (roster : GroupRoster) (admin : Identity) : Except GroupError Unit :=
  if Hex.encode admin.ikSign.pubBytes.toList ≠ roster.adminPub then throw .notAdmin else pure ()

/-- Adding a listed key hands the roster back as it is. Epochs are `u64` and wrap. -/
def addMember (roster : GroupRoster) (admin : Identity) (member : MemberBundle) : Except GroupError GroupRoster := do
  assertAdmin roster admin
  if roster.members.any fun m => m.ikSignPub = member.ikSignPub then return roster
  if roster.members.length ≥ maxGroupMembers then throw .full
  signUnsigned roster.groupId roster.name roster.photo roster.adminPub (roster.members ++ [member])
    (roster.epoch + 1) admin

def removeMember (roster : GroupRoster) (admin : Identity) (ikSignPub : String) : Except GroupError GroupRoster := do
  assertAdmin roster admin
  if ikSignPub = roster.adminPub then throw .removeAdmin
  let members := roster.members.filter fun m => m.ikSignPub ≠ ikSignPub
  signUnsigned roster.groupId roster.name roster.photo roster.adminPub members (roster.epoch + 1) admin

def setGroupName (roster : GroupRoster) (admin : Identity) (name : String) : Except GroupError GroupRoster := do
  assertAdmin roster admin
  signUnsigned roster.groupId name roster.photo roster.adminPub roster.members (roster.epoch + 1) admin

def setGroupPhoto (roster : GroupRoster) (admin : Identity) (photo : Option FileRef) :
    Except GroupError GroupRoster := do
  assertAdmin roster admin
  signUnsigned roster.groupId roster.name photo roster.adminPub roster.members (roster.epoch + 1) admin

/-! ### What a member does -/

omit [Signatures] in
def checkUpdateRules (current incoming : GroupRoster) : Except RosterRejection Unit := do
  if incoming.groupId ≠ current.groupId then throw .groupMismatch
  if incoming.adminPub ≠ current.adminPub then throw .adminChanged
  if incoming.epoch ≤ current.epoch then throw .stale

def acceptRosterUpdate (current incoming : GroupRoster) : Bool :=
  (match checkUpdateRules current incoming with
    | .ok _ => true
    | .error _ => false) && verifyRoster incoming

def evaluateIncomingRoster (current : Option GroupRoster) (incoming : GroupRoster)
    (senderIkSignPub myIkSignPub : String) : RosterDecision :=
  if senderIkSignPub ≠ incoming.adminPub then .reject .senderNotAdmin
  else
    match validateRoster incoming with
    | .error e => .reject (.invalid e)
    | .ok _ =>
      if !isMember incoming myIkSignPub then .reject .notAMember
      else
        match current with
        | none => .pendingInvite
        | some current =>
          match checkUpdateRules current incoming with
          | .ok _ => .accept
          | .error why => .reject why

end
end TrinoCore
