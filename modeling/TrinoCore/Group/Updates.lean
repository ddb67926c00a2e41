import TrinoCore.Group.Building
import TrinoCore.Symbolic

/-!
A member that follows an honest admin.

The admin's key signs rosters through the builders, its prekeys and its identity binding, and nothing
else. Whatever arrives from whomever, the roster a member holds is one that the admin handed out.
-/

namespace TrinoCore

section
variable [Signatures]

omit [Signatures] in
theorem checkUpdateRules_ok_iff {current incoming : GroupRoster} :
    checkUpdateRules current incoming = .ok () ↔
      incoming.groupId = current.groupId ∧ incoming.adminPub = current.adminPub ∧ current.epoch < incoming.epoch := by
  unfold checkUpdateRules
  dsimp only
  simp only [guard_ok]
  rw [not_not, not_not]
  by_cases old : incoming.epoch ≤ current.epoch
  · rw [if_pos old]
    constructor
    · intro given
      obtain ⟨_, _, absurd⟩ := given
      cases absurd
    · intro given
      obtain ⟨_, _, newer⟩ := given
      exact absurd old (UInt64.not_le.mpr newer)
  · rw [if_neg old]
    have newer := UInt64.not_le.mp old
    constructor
    · intro given
      obtain ⟨sameGroup, sameAdmin, _⟩ := given
      exact ⟨sameGroup, sameAdmin, newer⟩
    · intro given
      obtain ⟨sameGroup, sameAdmin, _⟩ := given
      exact ⟨sameGroup, sameAdmin, rfl⟩

theorem evaluate_invite_iff {incoming : GroupRoster} {sender me : String} :
    evaluateIncomingRoster none incoming sender me = .pendingInvite ↔
      sender = incoming.adminPub ∧ validateRoster incoming = .ok () ∧ isMember incoming me = true := by
  unfold evaluateIncomingRoster
  by_cases same : sender = incoming.adminPub
  · cases valid : validateRoster incoming with
    | error e => simp [same]
    | ok _ =>
      cases member : isMember incoming me with
      | true => simp [same]
      | false => simp [same]
  · simp [same]

theorem evaluate_accept_iff {current incoming : GroupRoster} {sender me : String} :
    evaluateIncomingRoster (some current) incoming sender me = .accept ↔
      sender = incoming.adminPub ∧ validateRoster incoming = .ok () ∧ isMember incoming me = true ∧
        checkUpdateRules current incoming = .ok () := by
  unfold evaluateIncomingRoster
  by_cases same : sender = incoming.adminPub
  · cases valid : validateRoster incoming with
    | error e => simp [same]
    | ok _ =>
      cases member : isMember incoming me with
      | true =>
        cases rules : checkUpdateRules current incoming with
        | error why => simp [same, rules]
        | ok _ => simp [same, rules]
      | false => simp [same]
  · simp [same]

/-- The signatures that the holder of `key` lets out: over its prekeys, over its identity binding, and
on the rosters that its builder calls returned. -/
inductive Issued (key : KeyPair) (calls : List (Identity × BuilderCall)) : Bytes → Bytes64 → Prop where
  | prekey (spkPub : Bytes32) : Issued key calls spkPub.toList (ed25519Sign key spkPub.toList)
  | binding (ikDhPub nostrPub : Bytes32) :
    Issued key calls (identitySigningBytes ikDhPub nostrPub) (ed25519Sign key (identitySigningBytes ikDhPub nostrPub))
  | roster {admin : Identity} {call : BuilderCall} {r : GroupRoster} (made : (admin, call) ∈ calls)
    (own : admin.ikSign = key) (signs : call.isNoOp = false) (returned : call.run admin = .ok r) :
    Issued key calls r.signingBytes (ed25519Sign key r.signingBytes)

/-- A signature by `key` that reaches a member inside a roster was issued. -/
def Unforged (key : KeyPair) (calls : List (Identity × BuilderCall)) (r : GroupRoster) : Prop :=
  ∀ sig, Group.decode64 r.signature = .ok sig → ed25519Verify key.pubBytes r.signingBytes sig = true →
    Issued key calls r.signingBytes sig

omit [Signatures] in
/-- Equal up to the order of members, the thumbnail and the spelling of the signature. -/
structure SameRoster (r s : GroupRoster) : Prop where
  groupId : r.groupId = s.groupId
  name : r.name = s.name
  photo : SamePhoto r.photo s.photo
  adminPub : r.adminPub = s.adminPub
  members : r.members.Perm s.members
  epoch : r.epoch = s.epoch
  signature : ∃ sig, Group.decode64 r.signature = .ok sig ∧ Group.decode64 s.signature = .ok sig

theorem WellBuilt.signingBytes_separate {r : GroupRoster} (built : WellBuilt r) :
    (∀ spkPub : Bytes32, r.signingBytes ≠ spkPub.toList) ∧
      ∀ ikDhPub nostrPub : Bytes32, r.signingBytes ≠ identitySigningBytes ikDhPub nostrPub := by
  have long := built.signingBytes_long
  constructor
  · intro spkPub same
    rw [same, List.Vector.toList_length] at long
    omega
  · intro ikDhPub nostrPub same
    rw [same, identitySigningBytes, List.length_append, List.Vector.toList_length, List.Vector.toList_length] at long
    omega

/-- A valid roster of the admin is one of those its builder calls returned. -/
theorem issued_roster {key : KeyPair} {calls : List (Identity × BuilderCall)} {r : GroupRoster}
    (valid : validateRoster r = .ok ()) (admin : Group.decode32 r.adminPub = .ok key.pubBytes)
    (unforged : Unforged key calls r) :
    ∃ admin call issued, (admin, call) ∈ calls ∧ admin.ikSign = key ∧ call.run admin = .ok issued ∧ SameRoster r issued := by
  obtain ⟨built, adminPub, sig, decoded, decodedSig, verified⟩ := validateRoster_ok_iff.mp valid
  obtain rfl := Except.ok.inj (decoded.symm.trans admin)
  have separate := built.signingBytes_separate
  have issued := unforged sig decodedSig verified
  generalize bytes : r.signingBytes = msg at issued
  cases issued with
  | prekey spkPub => exact (separate.1 spkPub bytes).elim
  | binding ikDhPub nostrPub => exact (separate.2 ikDhPub nostrPub bytes).elim
  | roster made own signs returned =>
    rename_i admin call issued
    obtain ⟨groupId, name, photo, adminPub, members, epoch⟩ := signingBytes_parts.mp bytes
    have signature := (call.run_signed returned signs).1
    refine ⟨admin, call, issued, made, own, returned, groupId, name, photoJson_eq_iff.mp photo, adminPub,
      sortedMembers_eq_iff.mp members, epoch, _, decodedSig, ?_⟩
    rw [signature, own]
    exact decode64_encode _

/-! ### Following the admin -/

/-- A roster that arrives, with the identity key of the contact it came from. -/
structure Incoming where
  roster : GroupRoster
  sender : String

/-- The held roster is replaced exactly on `Accept`. -/
def receiveRoster (me : String) (held : GroupRoster) (incoming : Incoming) : GroupRoster :=
  if evaluateIncomingRoster (some held) incoming.roster incoming.sender me = .accept then incoming.roster else held

/-- What is true of the held roster, from the invitation on. -/
structure Holding (key : KeyPair) (calls : List (Identity × BuilderCall)) (invite : GroupRoster) (me : String)
    (held : GroupRoster) : Prop where
  groupId : held.groupId = invite.groupId
  adminPub : held.adminPub = invite.adminPub
  valid : validateRoster held = .ok ()
  member : isMember held me = true
  unforged : Unforged key calls held

variable {key : KeyPair} {calls : List (Identity × BuilderCall)} {invite : GroupRoster} {me : String}

theorem Holding.step {held : GroupRoster} (holding : Holding key calls invite me held) {incoming : Incoming}
    (unforged : Unforged key calls incoming.roster) :
    Holding key calls invite me (receiveRoster me held incoming) := by
  unfold receiveRoster
  split
  · rename_i accepted
    obtain ⟨_, valid, member, rules⟩ := evaluate_accept_iff.mp accepted
    obtain ⟨sameGroup, sameAdmin, _⟩ := checkUpdateRules_ok_iff.mp rules
    exact ⟨sameGroup.trans holding.groupId, sameAdmin.trans holding.adminPub, valid, member, unforged⟩
  · exact holding

theorem Holding.run {held : GroupRoster} (holding : Holding key calls invite me held) {incoming : List Incoming}
    (unforged : ∀ arrival ∈ incoming, Unforged key calls arrival.roster) :
    Holding key calls invite me (incoming.foldl (receiveRoster me) held) := by
  induction incoming generalizing held with
  | nil => exact holding
  | cons arrival rest ih =>
    have next := holding.step (unforged arrival List.mem_cons_self)
    exact ih next (fun other present => unforged other (List.mem_cons_of_mem _ present))

/-- From an invitation of an honest admin on, whatever arrives: the held roster stays in the group and
under the admin, is valid, lists us and is one the admin handed out; only the admin replaces it, and
only by a newer one; and no other signature of the admin passes for one on a roster. -/
theorem held_roster_is_admins {inviter : String}
    (invited : evaluateIncomingRoster none invite inviter me = .pendingInvite)
    (admin : Group.decode32 invite.adminPub = .ok key.pubBytes) {incoming : List Incoming}
    (unforged : ∀ r ∈ invite :: incoming.map (·.roster), Unforged key calls r) :
    (∀ before after, incoming = before ++ after →
      let held := before.foldl (receiveRoster me) invite
      held.groupId = invite.groupId ∧ held.adminPub = invite.adminPub ∧ validateRoster held = .ok () ∧
        isMember held me = true ∧
        ∃ admin call issued, (admin, call) ∈ calls ∧ admin.ikSign = key ∧ call.run admin = .ok issued ∧
          SameRoster held issued) ∧
    (∀ before arrival after, incoming = before ++ arrival :: after →
      let held := before.foldl (receiveRoster me) invite
      receiveRoster me held arrival ≠ held →
        arrival.sender = invite.adminPub ∧ held.epoch < (receiveRoster me held arrival).epoch) ∧
    ∀ r, validateRoster r = .ok () →
      (∀ spkPub : Bytes32, r.signingBytes ≠ spkPub.toList) ∧
        ∀ ikDhPub nostrPub : Bytes32, r.signingBytes ≠ identitySigningBytes ikDhPub nostrPub := by
  obtain ⟨_, valid, member⟩ := evaluate_invite_iff.mp invited
  have first : Holding key calls invite me invite :=
    ⟨rfl, rfl, valid, member, unforged invite List.mem_cons_self⟩
  have presented : ∀ arrival ∈ incoming, Unforged key calls arrival.roster := by
    intro arrival present
    exact unforged arrival.roster (List.mem_cons_of_mem _ (List.mem_map_of_mem present))
  refine ⟨?_, ?_, ?_⟩
  · intro before after split
    subst incoming
    have holding := first.run (fun arrival present => presented arrival (List.mem_append_left after present))
    have keeps : Group.decode32 (before.foldl (receiveRoster me) invite).adminPub = .ok key.pubBytes := by
      rw [holding.adminPub]
      exact admin
    exact ⟨holding.groupId, holding.adminPub, holding.valid, holding.member,
      issued_roster holding.valid keeps holding.unforged⟩
  · intro before arrival after split held replaced
    subst incoming
    have holding := first.run (fun other present => presented other (List.mem_append_left _ present))
    have accepted : evaluateIncomingRoster (some held) arrival.roster arrival.sender me = .accept := by
      by_contra refused
      exact replaced (if_neg refused)
    obtain ⟨sender, _, _, rules⟩ := evaluate_accept_iff.mp accepted
    obtain ⟨_, sameAdmin, newer⟩ := checkUpdateRules_ok_iff.mp rules
    refine ⟨sender.trans (sameAdmin.trans holding.adminPub), ?_⟩
    unfold receiveRoster
    rw [if_pos accepted]
    exact newer
  · intro r validR
    exact (validateRoster_ok_iff.mp validR).1.signingBytes_separate

end

def sampleMember : MemberBundle := .fromPublicBundle "admin" (publicBundleFor sampleIdentity)

def sampleRoster (name : String) (epoch : UInt64) : GroupRoster :=
  soloRoster sampleIdentity "admin" (Hex.encode (sampleBytes 32 30).toList) name epoch

theorem sampleIdentity_canAdmin : CanAdmin sampleIdentity :=
  ⟨⟨_, rfl⟩, rfl, by decide⟩

def sampleCalls : List (Identity × BuilderCall) :=
  [(sampleIdentity, .createGroup sampleMember "group" (sampleBytes 32 30)),
    (sampleIdentity, .setGroupName (sampleRoster "group" 0) "renamed")]

theorem sampleCreated : createGroup sampleIdentity sampleMember "group" (sampleBytes 32 30) = .ok (sampleRoster "group" 0) :=
  createGroup_solo freeSignatures_honest sampleIdentity_canAdmin "admin" "group" (sampleBytes 32 30)

theorem sampleRenamed : setGroupName (sampleRoster "group" 0) sampleIdentity "renamed" = .ok (sampleRoster "renamed" 1) :=
  setGroupName_solo freeSignatures_honest sampleIdentity_canAdmin "admin" (Hex.encode (sampleBytes 32 30).toList) "group"
    "renamed" 0

theorem sampleRoster_unforged {name : String} {epoch : UInt64} {call : BuilderCall}
    (made : (sampleIdentity, call) ∈ sampleCalls) (signs : call.isNoOp = false)
    (returned : call.run sampleIdentity = .ok (sampleRoster name epoch)) :
    Unforged sampleIdentity.ikSign sampleCalls (sampleRoster name epoch) := by
  intro sig _ verified
  have same : sig = ed25519Sign sampleIdentity.ikSign (sampleRoster name epoch).signingBytes :=
    of_decide_eq_true verified
  rw [same]
  exact Issued.roster made rfl signs returned

theorem held_roster_is_admins_sample :
    let invite := sampleRoster "group" 0
    let arrival : Incoming := ⟨sampleRoster "renamed" 1, sampleMember.ikSignPub⟩
    let held := receiveRoster sampleMember.ikSignPub invite arrival
    invite.epoch < held.epoch ∧ validateRoster held = .ok () := by
  intro invite arrival held
  have inviteUnforged : Unforged sampleIdentity.ikSign sampleCalls invite :=
    sampleRoster_unforged List.mem_cons_self rfl sampleCreated
  have renamedUnforged : Unforged sampleIdentity.ikSign sampleCalls (sampleRoster "renamed" 1) :=
    sampleRoster_unforged (List.mem_cons_of_mem _ List.mem_cons_self) rfl sampleRenamed
  have inviteValid : validateRoster invite = .ok () := (signUnsigned_ok sampleCreated).2
  have renamedValid : validateRoster (sampleRoster "renamed" 1) = .ok () :=
    (signUnsigned_ok (assertAdmin_ok.mp sampleRenamed).2).2
  have member : ∀ name epoch, isMember (sampleRoster name epoch) sampleMember.ikSignPub = true := by
    intro name epoch
    exact (soloRoster_wellBuilt freeSignatures_honest sampleIdentity_canAdmin _ _ name epoch).admin
  have invited : evaluateIncomingRoster none invite sampleMember.ikSignPub sampleMember.ikSignPub = .pendingInvite :=
    evaluate_invite_iff.mpr ⟨rfl, inviteValid, member "group" 0⟩
  have accepted : evaluateIncomingRoster (some invite) arrival.roster arrival.sender sampleMember.ikSignPub = .accept :=
    evaluate_accept_iff.mpr ⟨rfl, renamedValid, member "renamed" 1, checkUpdateRules_ok_iff.mpr ⟨rfl, rfl, by decide⟩⟩
  have admin : Group.decode32 invite.adminPub = .ok sampleIdentity.ikSign.pubBytes := by
    change Group.decode32 (Hex.encode sampleIdentity.ikSign.pubBytes.toList) = _
    simp [Group.decode32]
  have unforged : ∀ r ∈ invite :: [arrival].map (·.roster), Unforged sampleIdentity.ikSign sampleCalls r := by
    intro r present
    rcases List.mem_cons.mp present with rfl | later
    · exact inviteUnforged
    · obtain rfl := List.mem_singleton.mp later
      exact renamedUnforged
  obtain ⟨stays, grows, _⟩ := held_roster_is_admins invited admin unforged
  have replaced : held ≠ invite := by
    intro same
    have applied : receiveRoster sampleMember.ikSignPub invite arrival = arrival.roster := by
      unfold receiveRoster
      rw [if_pos accepted]
    have names : "renamed" = "group" := congrArg GroupRoster.name (applied.symm.trans same)
    exact absurd names (by decide)
  have valid := (stays [arrival] [] rfl).2.2.1
  rw [List.foldl_cons, List.foldl_nil] at valid
  exact ⟨(grows [] arrival [] rfl replaced).2, valid⟩

end TrinoCore
