import TrinoCore.Group.Edits

/-!
A roster that a builder hands out, as it looks to someone who holds the roster it was made from.

The builders add one to the epoch unchecked, so the newest epoch of all is followed by the oldest.
-/

namespace TrinoCore

section
variable [Signatures]

/-- Every holder of `r` takes `next` for an update, if it comes from the admin and lists them. -/
structure HoldersAccept (r next : GroupRoster) : Prop where
  update : acceptRosterUpdate r next = true
  evaluated : ∀ me, isMember next me = true → evaluateIncomingRoster (some r) next r.adminPub me = .accept

/-- Every holder of `r` turns `next` down for its epoch. -/
structure HoldersFindStale (r next : GroupRoster) : Prop where
  update : acceptRosterUpdate r next = false
  evaluated : ∀ me, isMember next me = true → evaluateIncomingRoster (some r) next r.adminPub me = .reject .stale

theorem verifyRoster_ok {r : GroupRoster} (valid : validateRoster r = .ok ()) : verifyRoster r = true := by
  rw [verifyRoster, valid]

theorem Advanced.rules {r next : GroupRoster} {edit : Edit} (advanced : Advanced r next edit) :
    checkUpdateRules r next = if next.epoch ≤ r.epoch then .error .stale else .ok () := by
  have sameGroup : ¬next.groupId ≠ r.groupId := not_not_intro advanced.groupId
  have sameAdmin : ¬next.adminPub ≠ r.adminPub := not_not_intro advanced.adminPub
  unfold checkUpdateRules
  rw [if_neg sameGroup, if_neg sameAdmin]
  rfl

theorem Advanced.evaluate {r next : GroupRoster} {edit : Edit} (advanced : Advanced r next edit) {me : String}
    (member : isMember next me = true) : evaluateIncomingRoster (some r) next r.adminPub me =
      match checkUpdateRules r next with
      | .ok _ => .accept
      | .error why => .reject why := by
  have sender : ¬r.adminPub ≠ next.adminPub := not_not_intro advanced.adminPub.symm
  unfold evaluateIncomingRoster
  rw [if_neg sender, advanced.valid]
  cases rules : checkUpdateRules r next with
  | ok _ => simp only [member, rules, Bool.not_true, Bool.false_eq_true, ↓reduceIte]
  | error why => simp only [member, rules, Bool.not_true, Bool.false_eq_true, ↓reduceIte]

theorem Advanced.newer {r next : GroupRoster} {edit : Edit} (advanced : Advanced r next edit)
    (newer : r.epoch < next.epoch) : HoldersAccept r next := by
  have rules := advanced.rules
  rw [if_neg (UInt64.not_le.mpr newer)] at rules
  refine ⟨?_, fun me member => ?_⟩
  · rw [acceptRosterUpdate, rules, verifyRoster_ok advanced.valid]
    rfl
  · rw [advanced.evaluate member, rules]

theorem Advanced.stale {r next : GroupRoster} {edit : Edit} (advanced : Advanced r next edit)
    (old : next.epoch ≤ r.epoch) : HoldersFindStale r next := by
  have rules := advanced.rules
  rw [if_pos old] at rules
  refine ⟨?_, fun me member => ?_⟩
  · rw [acceptRosterUpdate, rules, Bool.false_and]
  · rw [advanced.evaluate member, rules]

/-- What a builder hands out, other than the roster itself for a listed key, is accepted by all who
hold the roster before it exactly when that has not the last epoch there is. -/
theorem handed_out_accepted_iff {r next : GroupRoster} {call : EditCall} (returned : call.run r = .ok next)
    (changes : call.edit.idle r.content = false) : HoldersAccept r next ↔ r.epoch < 0xFFFFFFFFFFFFFFFF := by
  obtain ⟨_, ⟨idle, _⟩ | ⟨_, advanced⟩⟩ := EditCall.run_ok returned
  · rw [changes] at idle
    cases idle
  · have grows : r.epoch < next.epoch ↔ r.epoch < 0xFFFFFFFFFFFFFFFF := by
      rw [advanced.epoch, UInt64.lt_add_one_iff]
    constructor
    · intro accept
      by_contra last
      have stale := advanced.stale (UInt64.not_lt.mp (mt grows.mp last))
      cases stale.update.symm.trans accept.update
    · intro room
      exact advanced.newer (grows.mpr room)

end

/-- The last epoch there is, with the first one after it. -/
theorem handed_out_stale :
    let r := sampleRoster "group" 0xFFFFFFFFFFFFFFFF
    let next := sampleRoster "renamed" 0
    validateRoster r = .ok () ∧ setGroupName r sampleIdentity "renamed" = .ok next ∧ acceptRosterUpdate r next = false ∧
      isMember next r.adminPub = true ∧ evaluateIncomingRoster (some r) next r.adminPub r.adminPub = .reject .stale := by
  intro r next
  have made : setGroupName (sampleRoster "group" 0xFFFFFFFFFFFFFFFE) sampleIdentity "group" = .ok r :=
    setGroupName_solo freeSignatures_honest sampleIdentity_canAdmin _ _ _ _ _
  have returned : EditCall.run ⟨sampleIdentity, .setGroupName "renamed"⟩ r = .ok next :=
    setGroupName_solo freeSignatures_honest sampleIdentity_canAdmin _ _ _ _ _
  have valid : validateRoster r = .ok () := (signUnsigned_ok (assertAdmin_ok.mp made).2).2
  obtain ⟨_, ⟨idle, _⟩ | ⟨_, advanced⟩⟩ := EditCall.run_ok returned
  · cases idle
  · have stale := advanced.stale (by decide)
    have member : isMember next r.adminPub = true :=
      (soloRoster_wellBuilt freeSignatures_honest sampleIdentity_canAdmin _ _ "renamed" 0).admin
    exact ⟨valid, returned, stale.update, member, stale.evaluated r.adminPub member⟩

theorem handed_out_accepted_iff_sample :
    HoldersAccept (sampleRoster "group" 0) (sampleRoster "renamed" 1) ↔ (sampleRoster "group" 0).epoch < 0xFFFFFFFFFFFFFFFF := by
  have returned : EditCall.run ⟨sampleIdentity, .setGroupName "renamed"⟩ (sampleRoster "group" 0) =
      .ok (sampleRoster "renamed" 1) := sampleRenamed
  exact handed_out_accepted_iff returned rfl

end TrinoCore
