import TrinoCore.Group.Convergence

/-!
A client in several groups, fed with arbitrary rosters by arbitrary contacts. What it holds in the end is
told from the list of deliveries at once, also when an admin hands out different rosters of one epoch.
-/

namespace TrinoCore

/-- A roster that arrives, with the identity key of the contact it came from. -/
structure Handover where
  roster : GroupRoster
  sender : String
  /-- The user's answer, should this turn out to be an invitation. -/
  joins : Bool

abbrev Groups := String → Option GroupRoster

section
variable [Signatures]

/-- The client looks up the group of the roster and applies the decision. -/
def receive (me : String) (groups : Groups) (d : Handover) : Groups :=
  match evaluateIncomingRoster (groups d.roster.groupId) d.roster d.sender me with
  | .accept => Function.update groups d.roster.groupId (some d.roster)
  | .pendingInvite => if d.joins then Function.update groups d.roster.groupId (some d.roster) else groups
  | .reject _ => groups

def acceptable (me : String) (d : Handover) : Bool :=
  d.sender = d.roster.adminPub && verifyRoster d.roster && isMember d.roster me

/-- The acceptable deliveries of one group, from the one on which the user joined. -/
def sinceJoined (me gid : String) (deliveries : List Handover) : List Handover :=
  (deliveries.filter fun d => d.roster.groupId = gid && acceptable me d).dropWhile fun d => !d.joins

def ofFirstAdmin : List Handover → List GroupRoster
  | [] => []
  | first :: rest => ((first :: rest).map Handover.roster).filter fun r => r.adminPub = first.roster.adminPub

def offered (me gid : String) (deliveries : List Handover) : List GroupRoster := ofFirstAdmin (sinceJoined me gid deliveries)

theorem acceptable_iff {me : String} {d : Handover} :
    acceptable me d = true ↔ d.sender = d.roster.adminPub ∧ validateRoster d.roster = .ok () ∧ isMember d.roster me = true := by
  unfold acceptable verifyRoster
  cases validateRoster d.roster <;> simp

theorem evaluate_unacceptable {me : String} {d : Handover} (unfit : ¬acceptable me d = true) (held : Option GroupRoster) :
    ∃ why, evaluateIncomingRoster held d.roster d.sender me = .reject why := by
  unfold evaluateIncomingRoster
  by_cases same : d.sender = d.roster.adminPub
  · rw [if_neg (not_not.mpr same)]
    cases valid : validateRoster d.roster with
    | error e => exact ⟨_, rfl⟩
    | ok _ =>
      have absent : isMember d.roster me = false :=
        Bool.eq_false_iff.mpr fun member => unfit (acceptable_iff.mpr ⟨same, valid, member⟩)
      exact ⟨.notAMember, by simp [absent]⟩
  · exact ⟨_, if_pos same⟩

def receiveOne (me : String) (held : Option GroupRoster) (d : Handover) : Option GroupRoster :=
  if acceptable me d then
    match held with
    | none => if d.joins then some d.roster else none
    | some current =>
      if d.roster.adminPub = current.adminPub ∧ current.epoch.toNat < d.roster.epoch.toNat then some d.roster else some current
  else held

def Filed (groups : Groups) : Prop := ∀ gid r, groups gid = some r → r.groupId = gid

theorem evaluate_filed {me : String} {d : Handover} (fit : acceptable me d = true) {current : GroupRoster}
    (own : current.groupId = d.roster.groupId) :
    if d.roster.adminPub = current.adminPub ∧ current.epoch.toNat < d.roster.epoch.toNat then
      evaluateIncomingRoster (some current) d.roster d.sender me = .accept
    else ∃ why, evaluateIncomingRoster (some current) d.roster d.sender me = .reject why := by
  obtain ⟨sender, valid, member⟩ := acceptable_iff.mp fit
  split
  · rename_i newer
    exact evaluate_accept_iff.mpr ⟨sender, valid, member,
      checkUpdateRules_ok_iff.mpr ⟨own.symm, newer.1, UInt64.lt_iff_toNat_lt.mpr newer.2⟩⟩
  · rename_i older
    cases rules : checkUpdateRules current d.roster with
    | ok _ =>
      obtain ⟨_, sameAdmin, newer⟩ := checkUpdateRules_ok_iff.mp rules
      exact absurd ⟨sameAdmin, UInt64.lt_iff_toNat_lt.mp newer⟩ older
    | error why => exact ⟨why, by simp [evaluateIncomingRoster, sender, valid, member, rules]⟩

theorem receive_eq {me : String} {groups : Groups} (filed : Filed groups) (d : Handover) :
    receive me groups d = Function.update groups d.roster.groupId (receiveOne me (groups d.roster.groupId) d) := by
  have same : Function.update groups d.roster.groupId (groups d.roster.groupId) = groups := Function.update_eq_self _ _
  unfold receive receiveOne
  by_cases fit : acceptable me d = true
  · rw [if_pos fit]
    cases held : groups d.roster.groupId with
    | none =>
      rw [held] at same
      rw [evaluate_invite_iff.mpr (acceptable_iff.mp fit)]
      dsimp only
      split
      · rfl
      · exact same.symm
    | some current =>
      rw [held] at same
      have decision := evaluate_filed fit (filed _ current held)
      dsimp only
      split at decision
      · rename_i newer
        rw [decision, if_pos newer]
      · rename_i older
        obtain ⟨why, rejected⟩ := decision
        rw [rejected, if_neg older, same]
  · obtain ⟨why, rejected⟩ := evaluate_unacceptable fit (groups d.roster.groupId)
    rw [if_neg fit, rejected, same]

theorem receiveOne_filed {me : String} {held : Option GroupRoster} {d : Handover} {r : GroupRoster}
    (own : ∀ r, held = some r → r.groupId = d.roster.groupId) (taken : receiveOne me held d = some r) :
    r.groupId = d.roster.groupId := by
  unfold receiveOne at taken
  split at taken
  · cases held with
    | none =>
      dsimp only at taken
      split at taken
      · rw [← Option.some.inj taken]
      · cases taken
    | some current =>
      dsimp only at taken
      split at taken
      · rw [← Option.some.inj taken]
      · exact own r taken
  · exact own r taken

theorem receive_filed {me : String} {groups : Groups} (filed : Filed groups) (d : Handover) : Filed (receive me groups d) := by
  intro gid r held
  rw [receive_eq filed, Function.update_apply] at held
  split at held
  · rename_i same
    subst gid
    exact receiveOne_filed (filed _) held
  · exact filed gid r held

/-- What a client holds of a group depends on the deliveries for that group alone. -/
theorem foldl_receive (me gid : String) (deliveries : List Handover) {groups : Groups} (filed : Filed groups) :
    deliveries.foldl (receive me) groups gid =
      (deliveries.filter fun d => d.roster.groupId = gid && acceptable me d).foldl (receiveOne me) (groups gid) := by
  induction deliveries generalizing groups with
  | nil => rfl
  | cons d rest ih =>
    rw [List.foldl_cons, ih (receive_filed filed d), receive_eq filed, List.filter_cons]
    by_cases own : d.roster.groupId = gid
    · subst gid
      rw [Function.update_self]
      by_cases fit : acceptable me d = true
      · rw [if_pos (by simp [fit]), List.foldl_cons]
      · have idle : receiveOne me (groups d.roster.groupId) d = groups d.roster.groupId := if_neg fit
        rw [if_neg (by simp [fit]), idle]
    · rw [Function.update_of_ne (Ne.symm own), if_neg (by simp [own])]

/-! ### From joining on -/

/-- Once a roster is held, the newest of its admin's wins, and the earlier of two with one epoch. -/
theorem foldl_held {me : String} {deliveries : List Handover} (fit : ∀ d ∈ deliveries, acceptable me d = true)
    (current : GroupRoster) :
    deliveries.foldl (receiveOne me) (some current) =
      ((deliveries.map Handover.roster).filter fun r => r.adminPub = current.adminPub).foldl
        (List.argAux fun b c : GroupRoster => c.epoch.toNat < b.epoch.toNat) (some current) := by
  induction deliveries generalizing current with
  | nil => rfl
  | cons d rest ih =>
    have later := ih fun other member => fit other (List.mem_cons_of_mem _ member)
    rw [List.foldl_cons, receiveOne, if_pos (fit d List.mem_cons_self), List.map_cons, List.filter_cons]
    by_cases admin : d.roster.adminPub = current.adminPub
    · rw [if_pos (decide_eq_true admin), List.foldl_cons]
      by_cases newer : current.epoch.toNat < d.roster.epoch.toNat
      · rw [if_pos ⟨admin, newer⟩, later, admin]
        simp [List.argAux, newer]
      · rw [if_neg fun both => newer both.2, later]
        simp [List.argAux, newer]
    · rw [if_neg fun both => admin both.1, if_neg (by simp [admin]), later]

theorem foldl_joining {me : String} {deliveries : List Handover} (fit : ∀ d ∈ deliveries, acceptable me d = true) :
    deliveries.foldl (receiveOne me) none = (ofFirstAdmin (deliveries.dropWhile fun d => !d.joins)).argmax (·.epoch.toNat) := by
  induction deliveries with
  | nil => rfl
  | cons d rest ih =>
    have later := fun other member => fit other (List.mem_cons_of_mem _ member)
    rw [List.foldl_cons, receiveOne, if_pos (fit d List.mem_cons_self), List.dropWhile_cons]
    cases joins : d.joins with
    | false => simpa using ih later
    | true =>
      rw [if_pos rfl, if_neg (by simp), foldl_held later, ofFirstAdmin, List.map_cons, List.filter_cons, if_pos (by simp)]
      rfl

omit [Signatures] in
theorem argmax_of_top {rosters : List GroupRoster} {r : GroupRoster} (present : r ∈ rosters)
    (top : ∀ s ∈ rosters, s ≠ r → s.epoch < r.epoch) : rosters.argmax (·.epoch.toNat) = some r := by
  cases best : rosters.argmax (·.epoch.toNat) with
  | none =>
    rw [List.argmax_eq_none.mp best] at present
    cases present
  | some s =>
    by_contra different
    have upper := List.le_of_mem_argmax (f := fun r : GroupRoster => r.epoch.toNat) present best
    have lower := UInt64.lt_iff_toNat_lt.mp (top s (List.argmax_mem best) fun same => different (congrArg some same))
    omega

/-- What a client holds of every group after any deliveries from anyone: nothing before it joins, then
the newest roster that the admin it joined under sent, the first to arrive of those with one epoch.
Clients that an admin drove apart agree again on the first roster that is newer than all those sent. -/
theorem clients_settle (gid : String) :
    (∀ me deliveries, deliveries.foldl (receive me) (fun _ => none) gid =
      (offered me gid deliveries).argmax (·.epoch.toNat)) ∧
      ∀ me mine you yours r, r ∈ offered me gid mine → r ∈ offered you gid yours →
        (∀ s ∈ offered me gid mine ++ offered you gid yours, s ≠ r → s.epoch < r.epoch) →
          mine.foldl (receive me) (fun _ => none) gid = some r ∧ yours.foldl (receive you) (fun _ => none) gid = some r := by
  have holds : ∀ me deliveries, deliveries.foldl (receive me) (fun _ => none) gid =
      (offered me gid deliveries).argmax (·.epoch.toNat) := by
    intro me deliveries
    have filed : Filed fun _ => none := fun gid r held => by cases held
    rw [foldl_receive me gid deliveries filed, offered, sinceJoined]
    apply foldl_joining
    intro d member
    have fit := (List.mem_filter.mp member).2
    simp only [Bool.and_eq_true] at fit
    exact fit.2
  refine ⟨holds, fun me mine you yours r here there top => ?_⟩
  rw [holds, holds]
  exact ⟨argmax_of_top here fun s present => top s (List.mem_append_left _ present),
    argmax_of_top there fun s present => top s (List.mem_append_right _ present)⟩

end

def sampleHandover (name : String) (epoch : UInt64) : Handover := ⟨sampleRoster name (epoch + 1), sampleMember.ikSignPub, true⟩

theorem sampleHandover_acceptable (name : String) (epoch : UInt64) :
    acceptable sampleMember.ikSignPub (sampleHandover name epoch) = true := by
  have renamed : setGroupName (sampleRoster "" epoch) sampleIdentity name = .ok (sampleRoster name (epoch + 1)) :=
    setGroupName_solo freeSignatures_honest sampleIdentity_canAdmin "admin" (Hex.encode (sampleBytes 32 30).toList) ""
      name epoch
  exact acceptable_iff.mpr ⟨rfl, (signUnsigned_ok (assertAdmin_ok.mp renamed).2).2,
    (soloRoster_wellBuilt freeSignatures_honest sampleIdentity_canAdmin _ _ name (epoch + 1)).admin⟩

theorem sampleHandover_offered (sent : List (String × UInt64)) :
    offered sampleMember.ikSignPub (Hex.encode (sampleBytes 32 30).toList) (sent.map fun d => sampleHandover d.1 d.2) =
      sent.map fun d => sampleRoster d.1 (d.2 + 1) := by
  have kept : (sent.map fun d => sampleHandover d.1 d.2).filter (fun d =>
      d.roster.groupId = Hex.encode (sampleBytes 32 30).toList && acceptable sampleMember.ikSignPub d) =
        sent.map fun d => sampleHandover d.1 d.2 := by
    apply List.filter_eq_self.mpr
    simp only [List.mem_map]
    rintro _ ⟨d, _, rfl⟩
    rw [sampleHandover_acceptable, Bool.and_true]
    exact decide_eq_true rfl
  unfold offered sinceJoined
  rw [kept]
  cases sent with
  | nil => rfl
  | cons first rest =>
    rw [List.map_cons, List.dropWhile_cons_of_neg (by simp [sampleHandover]), ofFirstAdmin, List.map_cons, List.map_map]
    apply List.filter_eq_self.mpr
    change ∀ r ∈ (first :: rest).map fun d => sampleRoster d.1 (d.2 + 1), _
    simp only [List.mem_map]
    rintro _ ⟨d, _, rfl⟩
    exact decide_eq_true rfl

/-- Two clients that took different rosters of one epoch, and then a newer one. -/
theorem clients_settle_sample :
    let gid := Hex.encode (sampleBytes 32 30).toList
    let me := sampleMember.ikSignPub
    let mine := [sampleHandover "a" 1, sampleHandover "b" 1]
    let yours := [sampleHandover "b" 1, sampleHandover "a" 1]
    mine.foldl (receive me) (fun _ => none) gid = some (sampleRoster "a" 2) ∧
      yours.foldl (receive me) (fun _ => none) gid = some (sampleRoster "b" 2) ∧
      (mine ++ [sampleHandover "c" 2]).foldl (receive me) (fun _ => none) gid = some (sampleRoster "c" 3) ∧
      (yours ++ [sampleHandover "c" 2]).foldl (receive me) (fun _ => none) gid = some (sampleRoster "c" 3) := by
  intro gid me mine yours
  obtain ⟨holds, heals⟩ := clients_settle gid
  have forkMine : offered me gid mine = [sampleRoster "a" 2, sampleRoster "b" 2] :=
    sampleHandover_offered [("a", 1), ("b", 1)]
  have forkYours : offered me gid yours = [sampleRoster "b" 2, sampleRoster "a" 2] :=
    sampleHandover_offered [("b", 1), ("a", 1)]
  have allMine : offered me gid (mine ++ [sampleHandover "c" 2]) = [sampleRoster "a" 2, sampleRoster "b" 2, sampleRoster "c" 3] :=
    sampleHandover_offered [("a", 1), ("b", 1), ("c", 2)]
  have allYours : offered me gid (yours ++ [sampleHandover "c" 2]) = [sampleRoster "b" 2, sampleRoster "a" 2, sampleRoster "c" 3] :=
    sampleHandover_offered [("b", 1), ("a", 1), ("c", 2)]
  refine ⟨?_, ?_, ?_⟩
  · rw [holds, forkMine]
    rfl
  · rw [holds, forkYours]
    rfl
  · apply heals me (mine ++ [sampleHandover "c" 2]) me (yours ++ [sampleHandover "c" 2])
    · simp [allMine]
    · simp [allYours]
    · rw [allMine, allYours]
      intro s present different
      have older : s = sampleRoster "a" 2 ∨ s = sampleRoster "b" 2 := by
        simp only [List.mem_append, List.mem_cons, List.not_mem_nil, or_false] at present
        rcases present with (a | b | c) | (b | a | c)
        · exact Or.inl a
        · exact Or.inr b
        · exact absurd c different
        · exact Or.inr b
        · exact Or.inl a
        · exact absurd c different
      rcases older with rfl | rfl <;> exact (show (2 : UInt64) < 3 by decide)

end TrinoCore
