import Mathlib.Data.List.MinMax
import TrinoCore.Group.Edits

/-!
Members that follow one admin agree. What a member holds is the newest of the rosters that reached it
and list it, so neither the order of delivery nor repetition matters.
-/

namespace TrinoCore

section
variable [Signatures]

def rosters (first : GroupRoster) : List EditCall → List GroupRoster
  | [] => [first]
  | call :: rest => first :: rosters (editStep first call) rest

theorem mem_rosters {first r : GroupRoster} {calls : List EditCall} (present : r ∈ rosters first calls) :
    ∃ before after, calls = before ++ after ∧ r = edited first before := by
  induction calls generalizing first with
  | nil => exact ⟨[], [], rfl, List.mem_singleton.mp present⟩
  | cons call rest ih =>
    rcases List.mem_cons.mp present with rfl | later
    · exact ⟨[], call :: rest, rfl, rfl⟩
    · obtain ⟨before, after, split, same⟩ := ih later
      exact ⟨call :: before, after, by rw [split]; rfl, same⟩

/-- The founding roster of a group and the calls that follow, no more than there are epochs. -/
structure Chain (entry : MemberBundle) (first : GroupRoster) (calls : List EditCall) : Prop where
  founded : Founded entry first
  room : first.epoch.toNat + calls.length < 2 ^ 64

theorem Chain.next {entry : MemberBundle} {first : GroupRoster} {call : EditCall} {rest : List EditCall}
    (chain : Chain entry first (call :: rest)) : Chain entry (editStep first call) rest := by
  obtain ⟨founded, room⟩ := chain
  rw [List.length_cons] at room
  unfold editStep
  cases returned : call.run first with
  | error e => exact ⟨founded, by dsimp only; omega⟩
  | ok next =>
    dsimp only
    obtain ⟨_, ⟨_, rfl⟩ | ⟨_, advanced⟩⟩ := EditCall.run_ok returned
    · exact ⟨founded, by omega⟩
    · refine ⟨founded.advance advanced, ?_⟩
      rw [advanced.epoch_toNat (by omega)]
      omega

theorem Chain.history {entry : MemberBundle} {first r : GroupRoster} {calls : List EditCall}
    (chain : Chain entry first calls) (present : r ∈ rosters first calls) :
    Founded entry r ∧ ∃ edits, History first r edits := by
  obtain ⟨before, after, rfl, rfl⟩ := mem_rosters present
  have room := chain.room
  rw [List.length_append] at room
  have enough : first.epoch.toNat + before.length < 2 ^ 64 := by omega
  obtain ⟨founded, history⟩ := edited_history chain.founded enough
  exact ⟨founded, _, history⟩

theorem Chain.first_unique {entry : MemberBundle} {first r : GroupRoster} {calls : List EditCall}
    (chain : Chain entry first calls) (present : r ∈ rosters first calls) (same : r.epoch = first.epoch) : r = first := by
  obtain ⟨_, edits, history⟩ := chain.history present
  apply history.unchanged
  have counted := history.epoch
  rw [same] at counted
  omega

theorem Chain.unique {entry : MemberBundle} {first r s : GroupRoster} {calls : List EditCall}
    (chain : Chain entry first calls) (mine : r ∈ rosters first calls) (yours : s ∈ rosters first calls)
    (same : r.epoch = s.epoch) : r = s := by
  induction calls generalizing first with
  | nil => rw [List.mem_singleton.mp mine, List.mem_singleton.mp yours]
  | cons call rest ih =>
    rcases List.mem_cons.mp mine with rfl | mineLater
    · exact (chain.first_unique yours same.symm).symm
    · rcases List.mem_cons.mp yours with rfl | yoursLater
      · exact chain.first_unique mine same
      · exact ih chain.next mineLater yoursLater

/-- A member takes a roster it is invited to and a roster it accepts, and keeps what it holds
otherwise. -/
def deliver (sender me : String) (held : Option GroupRoster) (incoming : GroupRoster) : Option GroupRoster :=
  match evaluateIncomingRoster held incoming sender me with
  | .accept => some incoming
  | .pendingInvite => some incoming
  | .reject _ => held

def delivered (sender me : String) (deliveries : List GroupRoster) : Option GroupRoster :=
  deliveries.foldl (deliver sender me) none

/-- Of two rosters of one chain a member takes the newer. -/
theorem deliver_eq {entry : MemberBundle} {first incoming : GroupRoster} {calls : List EditCall}
    (chain : Chain entry first calls) {me : String} {held : Option GroupRoster}
    (holds : ∀ r, held = some r → r ∈ rosters first calls) (present : incoming ∈ rosters first calls) :
    deliver first.adminPub me held incoming =
      if isMember incoming me then List.argAux (fun b c : GroupRoster => c.epoch.toNat < b.epoch.toNat) held incoming else held := by
  obtain ⟨founded, _, history⟩ := chain.history present
  have sender : ¬first.adminPub ≠ incoming.adminPub := not_not_intro history.adminPub.symm
  unfold deliver evaluateIncomingRoster
  rw [if_neg sender, founded.valid]
  dsimp only
  cases member : isMember incoming me with
  | false => rfl
  | true =>
    rw [if_neg (by simp), if_pos rfl]
    cases held with
    | none => rfl
    | some current =>
      obtain ⟨_, _, currentHistory⟩ := chain.history (holds current rfl)
      have rules : checkUpdateRules current incoming = .ok () ↔ current.epoch.toNat < incoming.epoch.toNat := by
        rw [checkUpdateRules_ok_iff, UInt64.lt_iff_toNat_lt, history.groupId, history.adminPub, currentHistory.groupId, currentHistory.adminPub]
        exact ⟨fun all => all.2.2, fun newer => ⟨rfl, rfl, newer⟩⟩
      change _ = if current.epoch.toNat < incoming.epoch.toNat then some incoming else some current
      dsimp only
      cases decision : checkUpdateRules current incoming with
      | ok _ =>
        rw [if_pos (rules.mp decision)]
      | error why =>
        have older : ¬current.epoch.toNat < incoming.epoch.toNat := by
          intro newer
          rw [rules.mpr newer] at decision
          cases decision
        rw [if_neg older]

omit [Signatures] in
theorem argAux_mem {r : GroupRoster → GroupRoster → Prop} [DecidableRel r] {held : Option GroupRoster}
    {incoming latest : GroupRoster} (taken : List.argAux r held incoming = some latest) :
    latest = incoming ∨ held = some latest := by
  cases held with
  | none => exact Or.inl (Option.some.inj taken).symm
  | some current =>
    change (if r incoming current then some incoming else some current) = some latest at taken
    split at taken
    · exact Or.inl (Option.some.inj taken).symm
    · exact Or.inr taken

def listing (me : String) (deliveries : List GroupRoster) : List GroupRoster := deliveries.filter fun r => isMember r me

omit [Signatures] in
theorem mem_listing {me : String} {deliveries : List GroupRoster} {r : GroupRoster} :
    r ∈ listing me deliveries ↔ r ∈ deliveries ∧ isMember r me = true :=
  List.mem_filter

/-- What a member holds at the end is the newest roster that reached it and lists it. -/
theorem delivered_eq {entry : MemberBundle} {first : GroupRoster} {calls : List EditCall}
    (chain : Chain entry first calls) (me : String) {deliveries : List GroupRoster}
    (genuine : ∀ r ∈ deliveries, r ∈ rosters first calls) :
    delivered first.adminPub me deliveries = (listing me deliveries).argmax (·.epoch.toNat) := by
  have run : ∀ held : Option GroupRoster, (∀ r, held = some r → r ∈ rosters first calls) →
      deliveries.foldl (deliver first.adminPub me) held =
        (listing me deliveries).foldl (List.argAux fun b c => c.epoch.toNat < b.epoch.toNat) held := by
    unfold listing
    induction deliveries with
    | nil => exact fun _ _ => rfl
    | cons incoming rest ih =>
      intro held holds
      have present := genuine incoming List.mem_cons_self
      have later := ih fun r member => genuine r (List.mem_cons_of_mem _ member)
      rw [List.foldl_cons, deliver_eq chain holds present, List.filter_cons]
      split
      · rw [List.foldl_cons]
        apply later
        intro r taken
        rcases argAux_mem taken with rfl | old
        · exact present
        · exact holds r old
      · exact later held holds
  exact run none (fun r absurd => by cases absurd)

theorem delivered_some_iff {entry : MemberBundle} {first : GroupRoster} {calls : List EditCall}
    (chain : Chain entry first calls) {me : String} {deliveries : List GroupRoster}
    (genuine : ∀ r ∈ deliveries, r ∈ rosters first calls) {newest : GroupRoster} :
    delivered first.adminPub me deliveries = some newest ↔
      newest ∈ listing me deliveries ∧ ∀ r ∈ listing me deliveries, r.epoch ≤ newest.epoch := by
  rw [delivered_eq chain me genuine]
  constructor
  · intro held
    refine ⟨List.argmax_mem held, ?_⟩
    intro r member
    have upper : r.epoch.toNat ≤ newest.epoch.toNat := List.le_of_mem_argmax (f := fun s : GroupRoster => s.epoch.toNat) member held
    exact UInt64.le_iff_toNat_le.mpr upper
  · intro given
    obtain ⟨member, top⟩ := given
    cases held : (listing me deliveries).argmax (·.epoch.toNat) with
    | none =>
      rw [List.argmax_eq_none.mp held] at member
      cases member
    | some best =>
      have present := List.argmax_mem held
      have upper := List.le_of_mem_argmax (f := fun r : GroupRoster => r.epoch.toNat) member held
      have lower := UInt64.le_iff_toNat_le.mp (top best present)
      have same := chain.unique (genuine best (mem_listing.mp present).1) (genuine newest (mem_listing.mp member).1)
        (UInt64.toNat_inj.mp (Nat.le_antisymm lower upper))
      rw [same]

/-- Whatever the order, the repetitions and the losses on the way, a member ends with the newest roster
that reached it and lists it, and two members that got the same rosters and stand in the newest of
them hold the same one. -/
theorem deliveries_converge {admin : Identity} {adminBundle : MemberBundle} {name : String} {seed : Bytes32}
    {first : GroupRoster} (created : createGroup admin adminBundle name seed = .ok first) {calls : List EditCall}
    (few : calls.length < 2 ^ 64) :
    (∀ r ∈ rosters first calls, ∀ s ∈ rosters first calls, r.epoch = s.epoch → r = s) ∧
    (∀ me deliveries, (∀ r ∈ deliveries, r ∈ rosters first calls) →
      (delivered first.adminPub me deliveries = none ↔ ∀ r ∈ deliveries, isMember r me = false) ∧
      ∀ held, delivered first.adminPub me deliveries = some held ↔
        (held ∈ deliveries ∧ isMember held me = true) ∧ ∀ r ∈ deliveries, isMember r me = true → r.epoch ≤ held.epoch) ∧
    ∀ me you mine yours newest, (∀ r ∈ mine, r ∈ rosters first calls) → (∀ r, r ∈ mine ↔ r ∈ yours) →
      newest ∈ mine → (∀ r ∈ mine, r.epoch ≤ newest.epoch) → isMember newest me = true → isMember newest you = true →
      delivered first.adminPub me mine = delivered first.adminPub you yours := by
  obtain ⟨founded, epoch, _⟩ := created_founded created
  have zero : first.epoch.toNat = 0 := by
    rw [epoch]
    rfl
  have chain : Chain adminBundle first calls := ⟨founded, by omega⟩
  refine ⟨fun r mine s yours same => chain.unique mine yours same, ?_, ?_⟩
  · intro me deliveries genuine
    constructor
    · rw [delivered_eq chain me genuine, List.argmax_eq_none, listing, List.filter_eq_nil_iff]
      exact forall₂_congr fun r _ => Bool.not_eq_true _ ▸ Iff.rfl
    · intro held
      rw [delivered_some_iff chain genuine, mem_listing]
      apply and_congr_right
      intro _
      constructor
      · intro top r present member
        exact top r (mem_listing.mpr ⟨present, member⟩)
      · intro top r listed
        obtain ⟨present, member⟩ := mem_listing.mp listed
        exact top r present member
  · intro me you mine yours newest genuine same present top member memberYou
    have held : ∀ who deliveries, (∀ r, r ∈ mine ↔ r ∈ deliveries) → isMember newest who = true →
        delivered first.adminPub who deliveries = some newest := by
      intro who deliveries equal listed
      rw [delivered_some_iff chain fun r inside => genuine r ((equal r).mpr inside)]
      refine ⟨mem_listing.mpr ⟨(equal newest).mp present, listed⟩, ?_⟩
      intro r inside
      exact top r ((equal r).mpr (mem_listing.mp inside).1)
    rw [held me mine (fun _ => Iff.rfl) member, held you yours same memberYou]

theorem rosters_cons_ok {first next : GroupRoster} {call : EditCall} (returned : call.run first = .ok next) :
    ∀ r ∈ [next, first], r ∈ rosters first [call] := by
  rw [rosters, rosters, editStep, returned]
  intro r present
  rcases List.mem_cons.mp present with rfl | last
  · exact List.mem_cons_of_mem _ List.mem_cons_self
  · rw [List.mem_singleton.mp last]
    exact List.mem_cons_self

end

theorem deliveries_converge_sample :
    delivered (sampleRoster "group" 0).adminPub sampleMember.ikSignPub [sampleRoster "renamed" 1, sampleRoster "group" 0] =
      some (sampleRoster "renamed" 1) := by
  have returned : EditCall.run ⟨sampleIdentity, .setGroupName "renamed"⟩ (sampleRoster "group" 0) =
      .ok (sampleRoster "renamed" 1) := by
    rw [EditCall.run_setGroupName]
    exact sampleRenamed
  have few : [(⟨sampleIdentity, .setGroupName "renamed"⟩ : EditCall)].length < 2 ^ 64 := (show 1 < 2 ^ 64 by decide)
  have held := ((deliveries_converge sampleCreated few).2.1 sampleMember.ikSignPub _ (rosters_cons_ok returned)).2
    (sampleRoster "renamed" 1)
  have member : isMember (sampleRoster "renamed" 1) sampleMember.ikSignPub = true :=
    (soloRoster_wellBuilt freeSignatures_honest sampleIdentity_canAdmin _ _ "renamed" 1).admin
  have top : ∀ r ∈ [sampleRoster "renamed" 1, sampleRoster "group" 0], r.epoch ≤ 1 := by
    intro r present
    rcases List.mem_cons.mp present with same | last
    · rw [same]
      exact UInt64.le_refl 1
    · rw [List.mem_singleton.mp last]
      exact (show (0 : UInt64) ≤ 1 by decide)
  exact held.mpr ⟨⟨List.mem_cons_self, member⟩, fun r present _ => top r present⟩

end TrinoCore
