import TrinoCore.Identity.Rotation
import TrinoCore.Vault.Model
import TrinoCore.X3dh.Model

/-!
The life of an identity: rotations, handshakes it answers, and reloads from its vault, in any order.

Only a rotation touches the signed prekeys, so what holds of prekeys over a sequence of rotations
holds over a life.
-/

namespace TrinoCore

/-- A save and a load under one passphrase, with whatever code is typed at the load. -/
structure Reload where
  totpSecret : Bytes
  passphrase : String
  salt : ByteVec saltSize
  nonce : Nonce
  code : String
  now : Int64

inductive LifeEvent (S : Type) where
  | rotate (call : RotateCall)
  | respond (msg : InitialMessage) (rng : X3dhRandom S)
  | reload (vault : Reload)

section
variable {S : Type} [Primitives S] [Signatures] [VaultJson] [Hmac]

variable (S) in
omit [Signatures] in
def reloadVault (identity : Identity) (vault : Reload) : Identity :=
  match sealVault S identity vault.totpSecret vault.passphrase vault.salt vault.nonce with
  | .error _ => identity
  | .ok blob =>
    match unsealVault S blob vault.passphrase vault.code vault.now with
    | .error _ => identity
    | .ok (restored, _) => restored

def lifeStep (identity : Identity) : LifeEvent S → Identity
  | .rotate call => rotateCall S identity call
  | .respond msg rng => ((respond msg rng).exec identity).2
  | .reload vault => reloadVault S identity vault

def live (identity : Identity) (events : List (LifeEvent S)) : Identity := events.foldl lifeStep identity

omit [Primitives S] [Signatures] [VaultJson] [Hmac] in
def LifeEvent.rotations (identity : Identity) : LifeEvent S → Nat
  | .rotate call => if Due identity call.now then 1 else 0
  | _ => 0

def lifeRotations (identity : Identity) : List (LifeEvent S) → Nat
  | [] => 0
  | event :: rest => event.rotations identity + lifeRotations (lifeStep identity event) rest

theorem live_nil (identity : Identity) : live (S := S) identity [] = identity := rfl

theorem live_cons (identity : Identity) (event : LifeEvent S) (rest : List (LifeEvent S)) :
    live identity (event :: rest) = live (lifeStep identity event) rest := rfl

theorem live_append (identity : Identity) (before after : List (LifeEvent S)) :
    live identity (before ++ after) = live (live identity before) after :=
  List.foldl_append

theorem lifeRotations_append (identity : Identity) (before after : List (LifeEvent S)) :
    lifeRotations identity (before ++ after) =
      lifeRotations identity before + lifeRotations (live identity before) after := by
  induction before generalizing identity with
  | nil => rw [List.nil_append, lifeRotations, Nat.zero_add]; rfl
  | cons event rest ih =>
    rw [List.cons_append, lifeRotations, lifeRotations, ih, Nat.add_assoc]
    rfl

omit [Primitives S] [Signatures] [VaultJson] [Hmac] in
theorem consumeOneTimePrekey_frame {identity : Identity} {opkId : UInt32} {found : OneTimePreKey × Identity}
    (consumed : consumeOneTimePrekey identity opkId = some found) :
    ∃ opks, found.2 = { identity with oneTimePrekeys := opks } := by
  unfold consumeOneTimePrekey at consumed
  cases index : identity.oneTimePrekeys.findIdx? (·.id = opkId) with
  | none =>
    rw [index] at consumed
    cases consumed
  | some idx =>
    rw [index] at consumed
    cases entry : identity.oneTimePrekeys[idx]? with
    | none => simp [entry] at consumed
    | some first =>
      simp only [Option.bind_some, entry, bind, pure, Option.some.injEq] at consumed
      exact ⟨_, (congrArg Prod.snd consumed).symm⟩

omit [Signatures] [VaultJson] [Hmac] in
theorem respond_frame (identity : Identity) (msg : InitialMessage) (rng : X3dhRandom S) :
    ∃ opks, ((respond msg rng).exec identity).2 = { identity with oneTimePrekeys := opks } := by
  have unchanged : identity = { identity with oneTimePrekeys := identity.oneTimePrekeys } := rfl
  unfold respond
  rw [Mut.exec_bind_ok (Mut.exec_get identity)]
  cases signedPrekeyById identity msg.spkId with
  | none => exact ⟨_, unchanged⟩
  | some spk =>
    dsimp only
    cases decodeArray32 msg.ikDhPub with
    | error e => exact ⟨_, unchanged⟩
    | ok theirIkDhPub =>
      cases decodeArray32 msg.ekPub with
      | error e => exact ⟨_, unchanged⟩
      | ok theirEkPub =>
        rw [Mut.exec_bind_ok (Mut.exec_lift_ok _ _ _), Mut.exec_bind_ok (Mut.exec_lift_ok _ _ _)]
        cases msg.opkId with
        | none => exact ⟨_, unchanged⟩
        | some opkId =>
          dsimp only
          cases consumed : consumeOneTimePrekey identity opkId with
          | none => exact ⟨_, unchanged⟩
          | some found =>
            obtain ⟨opks, same⟩ := consumeOneTimePrekey_frame consumed
            exact ⟨opks, same⟩

omit [Signatures] in
theorem reloadVault_eq (correct : Correct S) (roundTrips : JsonRoundTrips) (identity : Identity) (vault : Reload) :
    reloadVault S identity vault = identity := by
  unfold reloadVault
  split
  · rfl
  · rename_i blob saved
    rw [unsealVault_sealVault correct.open_sealed roundTrips saved]
    split
    · rfl
    · rename_i opened
      split at opened
      · rw [(Prod.mk.inj (Except.ok.inj opened)).1]
      · cases opened

theorem lifeStep_cases (correct : Correct S) (roundTrips : JsonRoundTrips) (identity : Identity) (event : LifeEvent S) :
    (∃ call, event = .rotate call ∧ lifeStep identity event = rotateCall S identity call) ∨
      (event.rotations identity = 0 ∧ ∃ opks, lifeStep identity event = { identity with oneTimePrekeys := opks }) := by
  cases event with
  | rotate call => exact Or.inl ⟨call, rfl, rfl⟩
  | respond msg rng => exact Or.inr ⟨rfl, respond_frame identity msg rng⟩
  | reload vault => exact Or.inr ⟨rfl, identity.oneTimePrekeys, reloadVault_eq correct roundTrips identity vault⟩

/-! ### What holds all along a life -/

variable (S) in
omit [VaultJson] [Hmac] in
def IssuedBy (ikSign : KeyPair) (spk : SignedPreKey) : Prop :=
  ∃ id createdAt privBytes, spk = signedPrekeyCreatedAt S ikSign id createdAt privBytes

omit [VaultJson] [Hmac] in
theorem IssuedBy.signature {ikSign : KeyPair} {spk : SignedPreKey} (issued : IssuedBy S ikSign spk) :
    spk.signature = ed25519Sign ikSign spk.keypair.pubBytes.toList := by
  obtain ⟨id, createdAt, privBytes, rfl⟩ := issued
  rfl

variable (S) in
omit [VaultJson] [Hmac] in
/-- Every key is one its generator makes, every prekey is signed, and ids only grow. -/
structure Sound (identity : Identity) : Prop where
  ordered : Ordered identity
  signKey : ∃ privBytes, identity.ikSign = generateEd25519 privBytes
  dhKey : ∃ privBytes, identity.ikDh = generateX25519 S privBytes
  current : IssuedBy S identity.ikSign identity.signedPrekey
  retired : ∀ retired ∈ identity.retiredSignedPrekeys, IssuedBy S identity.ikSign retired.prekey

/-- An id that once named `spk` names nothing else: `spk` is current, or ids have moved past it. -/
def Remembers (spk : SignedPreKey) (identity : Identity) : Prop :=
  identity.signedPrekey = spk ∨
    spk.id < identity.signedPrekey.id ∧ ∀ retired ∈ identity.retiredSignedPrekeys,
      retired.prekey.id = spk.id → retired.prekey = spk

omit [VaultJson] [Hmac] in
theorem created_sound {rng : IdentityRandom} {now : Int64} {identity : Identity}
    (created : createIdentity S rng now = some identity) : Sound S identity ∧ identity.signedPrekey.id = 1 := by
  obtain ⟨ordered, one⟩ := created_ordered created
  unfold createIdentity at created
  cases nostr : generateNostrKeypair rng.nostrDraws with
  | none =>
    rw [nostr] at created
    cases created
  | some keypair =>
    rw [nostr] at created
    obtain rfl := Option.some.inj created
    refine ⟨⟨ordered, ⟨_, rfl⟩, ⟨_, rfl⟩, ⟨_, _, _, rfl⟩, ?_⟩, one⟩
    intro retired present
    cases present

omit [VaultJson] [Hmac] in
theorem rotateCall_keys (identity : Identity) (call : RotateCall) :
    (rotateCall S identity call).ikSign = identity.ikSign ∧ (rotateCall S identity call).ikDh = identity.ikDh := by
  rw [rotateCall_eq, rotated]
  split
  · exact ⟨rfl, rfl⟩
  · exact ⟨rfl, rfl⟩

omit [VaultJson] [Hmac] in
theorem Sound.rotate {identity : Identity} (sound : Sound S identity) {call : RotateCall}
    (room : Due identity call.now → identity.signedPrekey.id.toNat + 1 < 2 ^ 32) :
    Sound S (rotateCall S identity call) := by
  obtain ⟨sign, dh⟩ := rotateCall_keys (S := S) identity call
  refine ⟨(rotateCall_step sound.ordered call room).1, ?_, ?_, ?_, ?_⟩
  · rw [sign]
    exact sound.signKey
  · rw [dh]
    exact sound.dhKey
  · rw [sign, rotateCall_current, rotated]
    split
    · exact ⟨_, _, _, rfl⟩
    · exact sound.current
  · intro retired present
    rw [sign]
    rcases (mem_rotateCall.mp present).1 with old | ⟨_, rfl⟩
    · exact sound.retired retired old
    · exact sound.current

omit [VaultJson] [Hmac] in
theorem Remembers.rotate {identity : Identity} {spk : SignedPreKey} (remembers : Remembers spk identity)
    (ordered : Ordered identity) {call : RotateCall}
    (room : Due identity call.now → identity.signedPrekey.id.toNat + 1 < 2 ^ 32) :
    Remembers spk (rotateCall S identity call) := by
  obtain ⟨_, ⟨_, next, _⟩ | ⟨idle, same⟩⟩ := rotateCall_step (S := S) ordered call room
  · refine Or.inr ⟨?_, ?_⟩
    · rw [UInt32.lt_iff_toNat_lt, next]
      rcases remembers with rfl | ⟨below, _⟩
      · exact Nat.lt_succ_self _
      · have less := UInt32.lt_iff_toNat_lt.mp below
        omega
    · intro retired present sameId
      rcases (mem_rotateCall.mp present).1 with old | ⟨_, rfl⟩
      · rcases remembers with rfl | ⟨_, known⟩
        · exact absurd sameId (UInt32.ne_of_lt (ordered.below retired old))
        · exact known retired old sameId
      · rcases remembers with rfl | ⟨below, _⟩
        · rfl
        · exact absurd sameId.symm (UInt32.ne_of_lt below)
  · rw [Remembers, same]
    rcases remembers with current | ⟨below, known⟩
    · exact Or.inl current
    · refine Or.inr ⟨below, fun retired present => ?_⟩
      rcases (mem_rotateCall.mp present).1 with old | ⟨due, _⟩
      · exact known retired old
      · exact absurd due idle

def RoomForLife (identity : Identity) (events : List (LifeEvent S)) : Prop :=
  identity.signedPrekey.id.toNat + lifeRotations identity events < 2 ^ 32

theorem lifeStep_keeps (correct : Correct S) (roundTrips : JsonRoundTrips) {identity : Identity}
    (sound : Sound S identity) {event : LifeEvent S} {rest : List (LifeEvent S)}
    (room : RoomForLife identity (event :: rest)) :
    Sound S (lifeStep identity event) ∧ RoomForLife (lifeStep identity event) rest ∧
      (lifeStep identity event).signedPrekey.id.toNat =
        identity.signedPrekey.id.toNat + event.rotations identity ∧
      ∀ spk, Remembers spk identity → Remembers spk (lifeStep identity event) := by
  rw [RoomForLife, lifeRotations] at room
  obtain ⟨call, rfl, next⟩ | ⟨idle, opks, next⟩ := lifeStep_cases correct roundTrips identity event
  · rw [LifeEvent.rotations] at room
    have enough : Due identity call.now → identity.signedPrekey.id.toNat + 1 < 2 ^ 32 := by
      intro due
      rw [if_pos due] at room
      omega
    rw [next] at room ⊢
    have counted : (rotateCall S identity call).signedPrekey.id.toNat =
        identity.signedPrekey.id.toNat + if Due identity call.now then 1 else 0 := by
      obtain ⟨_, ⟨due, newId, _⟩ | ⟨notDue, same⟩⟩ := rotateCall_step (S := S) sound.ordered call enough
      · rw [if_pos due, newId]
      · rw [if_neg notDue, same, Nat.add_zero]
    refine ⟨sound.rotate enough, ?_, counted, fun spk remembers => remembers.rotate sound.ordered enough⟩
    rw [RoomForLife, counted]
    omega
  · rw [idle, Nat.zero_add] at room
    rw [next] at room ⊢
    rw [idle]
    exact ⟨⟨⟨sound.ordered.below, sound.ordered.nodup⟩, sound.signKey, sound.dhKey, sound.current, sound.retired⟩,
      room, rfl, fun _ remembers => remembers⟩

theorem live_keeps (correct : Correct S) (roundTrips : JsonRoundTrips) {identity : Identity}
    (sound : Sound S identity) {events : List (LifeEvent S)} (room : RoomForLife identity events) :
    Sound S (live identity events) ∧ ∀ spk, Remembers spk identity → Remembers spk (live identity events) := by
  induction events generalizing identity with
  | nil => exact ⟨sound, fun _ remembers => remembers⟩
  | cons event rest ih =>
    obtain ⟨sound', room', _, known⟩ := lifeStep_keeps correct roundTrips sound room
    obtain ⟨later, knownLater⟩ := ih sound' room'
    exact ⟨later, fun spk remembers => knownLater spk (known spk remembers)⟩

theorem live_rotations (correct : Correct S) (roundTrips : JsonRoundTrips) {identity : Identity}
    (sound : Sound S identity) {events : List (LifeEvent S)} (room : RoomForLife identity events) :
    (live identity events).signedPrekey.id.toNat = identity.signedPrekey.id.toNat + lifeRotations identity events := by
  induction events generalizing identity with
  | nil => rfl
  | cons event rest ih =>
    obtain ⟨sound', room', counted, _⟩ := lifeStep_keeps correct roundTrips sound room
    apply (ih sound' room').trans
    rw [lifeRotations, counted, Nat.add_assoc]

theorem live_ikDh (correct : Correct S) (roundTrips : JsonRoundTrips) (identity : Identity)
    (events : List (LifeEvent S)) : (live identity events).ikDh = identity.ikDh := by
  induction events generalizing identity with
  | nil => rfl
  | cons event rest ih =>
    apply (ih (lifeStep identity event)).trans
    obtain ⟨call, _, next⟩ | ⟨_, opks, next⟩ := lifeStep_cases correct roundTrips identity event
    · rw [next]
      exact (rotateCall_keys identity call).2
    · rw [next]

omit [Signatures] [VaultJson] [Hmac] in
/-- A retained id still finds the prekey it was published for. -/
theorem Remembers.lookup {identity : Identity} {spk found : SignedPreKey} (remembers : Remembers spk identity)
    (retained : signedPrekeyById identity spk.id = some found) : found = spk := by
  rcases remembers with current | ⟨below, known⟩
  · rw [signedPrekeyById, current, if_pos rfl] at retained
    exact (Option.some.inj retained).symm
  · rw [signedPrekeyById, if_neg (UInt32.ne_of_lt below).symm] at retained
    obtain ⟨retired, present, rfl⟩ := List.mem_map.mp (List.mem_of_find?_eq_some retained)
    have sameId : retired.prekey.id = spk.id := by simpa using List.find?_some retained
    exact known retired present sameId

end
end TrinoCore
