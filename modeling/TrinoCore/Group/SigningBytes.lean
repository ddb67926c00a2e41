import Mathlib.Data.List.Perm.Basic
import TrinoCore.Group.Model

namespace TrinoCore

/-- Both absent, or equal in everything but the thumbnail. -/
def SamePhoto : Option FileRef → Option FileRef → Prop
  | none, none => True
  | some p, some q =>
    p.url = q.url ∧ p.key = q.key ∧ p.sha256 = q.sha256 ∧ p.mime = q.mime ∧ p.name = q.name ∧ p.size = q.size
  | _, _ => False

theorem photoJson_eq_iff {p q : Option FileRef} : photoJson p = photoJson q ↔ SamePhoto p q := by
  cases p with
  | none =>
    cases q with
    | none => simp [photoJson, SamePhoto]
    | some q => simp [photoJson, SamePhoto]
  | some p =>
    cases q with
    | none => simp [photoJson, SamePhoto]
    | some q => simp [photoJson, SamePhoto, UInt64.toNat_inj]

theorem memberJson_injective : Function.Injective memberJson := by
  intro m m' h
  simp only [memberJson, Json.arr.injEq, List.cons.injEq, Json.str.injEq, Json.num.injEq, UInt32.toNat_inj,
    and_true] at h
  obtain ⟨ikSignPub, ikDhPub, nostrPub, spkId, spkPub, spkSig, idSig, handle⟩ := h
  cases m
  cases m'
  simp only [MemberBundle.mk.injEq]
  exact ⟨handle, ikSignPub, ikDhPub, nostrPub, spkId, spkPub, spkSig, idSig⟩

theorem textLe_trans (u v w : Json) (first : textLe u v = true) (second : textLe v w = true) : textLe u w = true := by
  simp only [textLe, decide_eq_true_eq] at *
  exact List.le_trans first second

theorem textLe_total (v w : Json) : (textLe v w || textLe w v) = true := by
  simp only [textLe, Bool.or_eq_true, decide_eq_true_eq]
  exact List.le_total _ _

/-- Only equal values sort as equal, so the order is the only thing that sorting forgets. -/
theorem textLe_antisymm {v w : Json} (first : textLe v w = true) (second : textLe w v = true) : v = w := by
  simp only [textLe, decide_eq_true_eq] at *
  exact Json.render_inj (utf8_inj.mp (List.le_antisymm first second))

theorem sortedMembers_eq_iff {members members' : List MemberBundle} :
    sortedMembers members = sortedMembers members' ↔ members.Perm members' := by
  have sorted : ∀ ms, (sortedMembers ms).Pairwise (fun v w => textLe v w = true) := fun ms =>
    List.pairwise_mergeSort textLe_trans textLe_total (ms.map memberJson)
  have perm : ∀ ms, (sortedMembers ms).Perm (ms.map memberJson) := fun ms =>
    List.mergeSort_perm (ms.map memberJson) textLe
  rw [← List.map_perm_map_iff memberJson_injective]
  constructor
  · intro same
    exact (perm members).symm.trans (same ▸ perm members')
  · intro permuted
    have both : (sortedMembers members).Perm (sortedMembers members') :=
      (perm members).trans (permuted.trans (perm members').symm)
    exact both.eq_of_pairwise (fun v w _ _ first second => textLe_antisymm first second) (sorted members) (sorted members')

section
variable {groupId name adminPub groupId' name' adminPub' : String} {photo photo' : Option FileRef}
  {members members' : List MemberBundle} {epoch epoch' : UInt64}

theorem signingBytes_parts :
    rosterSigningBytes groupId name photo adminPub members epoch =
        rosterSigningBytes groupId' name' photo' adminPub' members' epoch' ↔
      groupId = groupId' ∧ name = name' ∧ photoJson photo = photoJson photo' ∧ adminPub = adminPub' ∧
        sortedMembers members = sortedMembers members' ∧ epoch = epoch' := by
  constructor
  · intro same
    have texts := utf8_inj.mp (List.append_cancel_left same)
    have bodies := Json.render_inj texts
    simp only [Json.arr.injEq, List.cons.injEq, Json.str.injEq, Json.num.injEq, UInt64.toNat_inj, and_true] at bodies
    exact bodies
  · intro given
    obtain ⟨rfl, rfl, samePhoto, rfl, sameMembers, rfl⟩ := given
    rw [rosterSigningBytes, rosterSigningBytes, samePhoto, sameMembers]

/-- Two rosters have the same signed bytes exactly when they agree on everything but the thumbnail and
the order of members. -/
theorem rosterSigningBytes_eq_iff :
    rosterSigningBytes groupId name photo adminPub members epoch =
        rosterSigningBytes groupId' name' photo' adminPub' members' epoch' ↔
      groupId = groupId' ∧ name = name' ∧ SamePhoto photo photo' ∧ adminPub = adminPub' ∧
        members.Perm members' ∧ epoch = epoch' := by
  rw [signingBytes_parts, photoJson_eq_iff, sortedMembers_eq_iff]

end
end TrinoCore
