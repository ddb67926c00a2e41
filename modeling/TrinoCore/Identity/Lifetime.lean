import TrinoCore.Vault.Migration
import TrinoCore.X3dh.SingleUse

/-!
How much an identity holds, at any time of its life. Its clock may go back and forth, as long as no
difference of two times that a rotation compares overflows, and its prekey ids last.

A rotation drops whatever was retired thirty days before it, and a prekey serves at least two days
before it is retired, so only so many fit.
-/

namespace TrinoCore

def maxRetiredPrekeys : Nat := 15

/-- The current prekey took over from the last retired one, each of them served its time, and none was
retired longer before the last rotation than retired prekeys are kept. -/
structure Retiring (identity : Identity) : Prop where
  linked : Linked identity.signedPrekey identity.retiredSignedPrekeys
  served : ∀ r ∈ identity.retiredSignedPrekeys, r.prekey.createdAt.toInt + spkRotationSecs.toInt ≤ r.retiredAt.toInt
  recent : ∀ r ∈ identity.retiredSignedPrekeys,
    identity.signedPrekey.createdAt.toInt - r.retiredAt.toInt < spkRetentionSecs.toInt

/-- Every prekey retired after this one pushed its retirement two more days back. -/
theorem Linked.span {current : SignedPreKey} {oldest : RetiredSignedPreKey} {rest : List RetiredSignedPreKey}
    (linked : Linked current (oldest :: rest))
    (served : ∀ r ∈ rest, r.prekey.createdAt.toInt + spkRotationSecs.toInt ≤ r.retiredAt.toInt) :
    oldest.retiredAt.toInt + rest.length * spkRotationSecs.toInt ≤ current.createdAt.toInt := by
  induction rest generalizing oldest with
  | nil =>
    obtain ⟨⟨_, time, _⟩, _⟩ := linked
    have same : oldest.retiredAt = current.createdAt := time
    simp [same]
  | cons second others ih =>
    obtain ⟨⟨_, time, _⟩, linked⟩ := linked
    obtain ⟨own, later⟩ := List.forall_mem_cons.mp served
    have tail := ih linked later
    have same : oldest.retiredAt = second.prekey.createdAt := time
    have days : spkRotationSecs.toInt = 172800 := by decide
    rw [days] at own tail ⊢
    rw [same, List.length_cons]
    push_cast
    omega

theorem Retiring.few {identity : Identity} (retiring : Retiring identity) :
    identity.retiredSignedPrekeys.length ≤ maxRetiredPrekeys := by
  obtain ⟨linked, served, recent⟩ := retiring
  cases retired : identity.retiredSignedPrekeys with
  | nil => exact Nat.zero_le _
  | cons oldest rest =>
    rw [retired] at linked served recent
    have span := linked.span (List.forall_mem_cons.mp served).2
    have window := recent oldest List.mem_cons_self
    have days : spkRotationSecs.toInt = 172800 := by decide
    have month : spkRetentionSecs.toInt = 2592000 := by decide
    rw [days] at span
    rw [month] at window
    rw [List.length_cons, maxRetiredPrekeys]
    omega

section
variable {S : Type} [Primitives S] [Signatures]

theorem Retiring.rotate {identity : Identity} (retiring : Retiring identity) (ordered : Ordered identity) {call : RotateCall}
    (room : Due identity call.now → identity.signedPrekey.id.toNat + 1 < 2 ^ 32)
    (fits : DifferenceFits call.now identity.signedPrekey.createdAt)
    (fitsRetired : ∀ r ∈ identity.retiredSignedPrekeys, DifferenceFits call.now r.retiredAt) :
    Retiring (rotateCall S identity call) := by
  have kept : ∀ r ∈ (rotateCall S identity call).retiredSignedPrekeys, r ∈ identity.retiredSignedPrekeys ∨
      (Due identity call.now ∧ r = ⟨identity.signedPrekey, call.now⟩) := fun r present => (mem_rotateCall.mp present).1
  refine ⟨rotateCall_linked ordered retiring.linked room fits fitsRetired, ?_, ?_⟩
  · intro r present
    rcases kept r present with old | ⟨due, rfl⟩
    · exact retiring.served r old
    · have age : ¬call.now - identity.signedPrekey.createdAt < spkRotationSecs := Int64.not_lt.mpr due
      rw [sub_lt_iff fits] at age
      dsimp only
      omega
  · intro r present
    obtain ⟨_, ⟨due, _, fresh⟩ | ⟨idle, same⟩⟩ := rotateCall_step (S := S) ordered call room
    · -- the current prekey was made at this call, which kept only what is recent
      have inTime := (mem_rotateCall.mp present).2
      have fitsNow : DifferenceFits call.now r.retiredAt := by
        rcases kept r present with old | ⟨_, rfl⟩
        · exact fitsRetired r old
        · exact fits_self call.now
      unfold Kept at inTime
      rw [decide_eq_true_eq, sub_lt_iff fitsNow] at inTime
      rw [fresh]
      exact inTime
    · rw [same]
      rcases kept r present with old | ⟨due, _⟩
      · exact retiring.recent r old
      · exact absurd due idle

omit [Primitives S] [Signatures] in
/-- No clock difference that an event computes overflows, and no id it issues is past the last one. -/
def OwnerEvent.Fits (identity : Identity) : OwnerEvent S → Prop
  | .rotate call => DifferenceFits call.now identity.signedPrekey.createdAt ∧
      (∀ r ∈ identity.retiredSignedPrekeys, DifferenceFits call.now r.retiredAt) ∧
      (Due identity call.now → identity.signedPrekey.id.toNat + 1 < 2 ^ 32)
  | _ => True

variable (S) in
/-- The identities that `create_identity` makes and their owner's device turns them into, while its clock
and its ids fit. -/
inductive Lived : Identity → Prop
  | born {rng : IdentityRandom} {now : Int64} {identity : Identity} (created : createIdentity S rng now = some identity) :
    Lived identity
  | event {identity : Identity} (lived : Lived identity) (event : OwnerEvent S) (fits : event.Fits identity) :
    Lived (ownerStep identity event)

omit [Primitives S] [Signatures] in
/-- What holds all along a life. -/
structure Aged (identity : Identity) : Prop where
  ordered : Ordered identity
  retiring : Retiring identity
  opkIds : identity.opkIds.Nodup
  opks : identity.oneTimePrekeys.length ≤ opkCount

theorem created_aged {rng : IdentityRandom} {now : Int64} {identity : Identity}
    (created : createIdentity S rng now = some identity) : Aged identity := by
  have nodup := created_opkIds created
  have unretired := (created_unretired created).1
  refine ⟨(created_ordered created).1, ⟨?_, ?_, ?_⟩, nodup, ?_⟩
  · rw [unretired]
    trivial
  · simp [unretired]
  · simp [unretired]
  · unfold createIdentity at created
    cases nostr : generateNostrKeypair rng.nostrDraws with
    | none =>
      rw [nostr] at created
      cases created
    | some keypair =>
      rw [nostr] at created
      obtain rfl := Option.some.inj created
      simp [createOneTimePrekeys]

theorem Aged.step {identity : Identity} (aged : Aged identity) {event : OwnerEvent S} (fits : event.Fits identity) :
    Aged (ownerStep identity event) := by
  have ids := ownerStep_opkIds aged.opkIds event
  have fewer : (ownerStep identity event).oneTimePrekeys.length ≤ identity.oneTimePrekeys.length := by
    simpa [Identity.opkIds] using ids.length_le
  refine ⟨?_, ?_, aged.opkIds.sublist ids, fewer.trans aged.opks⟩
  · cases event with
    | rotate call => exact (rotateCall_step aged.ordered call fits.2.2).1
    | respond msg rng =>
      obtain ⟨opks, frame⟩ := respond_frame identity msg rng
      rw [ownerStep, frame]
      exact ⟨aged.ordered.below, aged.ordered.nodup⟩
    | reload totpSecret =>
      rw [ownerStep, deserializeIdentity_serializeIdentity]
      exact aged.ordered
  · cases event with
    | rotate call => exact aged.retiring.rotate aged.ordered fits.2.2 fits.1 fits.2.1
    | respond msg rng =>
      obtain ⟨opks, frame⟩ := respond_frame identity msg rng
      rw [ownerStep, frame]
      exact ⟨aged.retiring.linked, aged.retiring.served, aged.retiring.recent⟩
    | reload totpSecret =>
      rw [ownerStep, deserializeIdentity_serializeIdentity]
      exact aged.retiring

theorem Lived.aged {identity : Identity} (lived : Lived S identity) : Aged identity := by
  induction lived with
  | born created => exact created_aged created
  | event _ event fits ih => exact ih.step fits

end
end TrinoCore
