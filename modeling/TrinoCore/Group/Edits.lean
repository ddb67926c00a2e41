import Mathlib.Data.List.Flatten
import TrinoCore.Group.Updates

/-!
The history of a group on the admin's side: after `create_group`, calls of the other builders on the
latest roster, by anyone and with any arguments.
-/

namespace TrinoCore

/-- What an admin asks of a roster. -/
inductive Edit where
  | addMember (member : MemberBundle)
  | removeMember (ikSignPub : String)
  | setGroupName (name : String)
  | setGroupPhoto (photo : Option FileRef)

def Edit.call (roster : GroupRoster) : Edit → BuilderCall
  | .addMember member => .addMember roster member
  | .removeMember ikSignPub => .removeMember roster ikSignPub
  | .setGroupName name => .setGroupName roster name
  | .setGroupPhoto photo => .setGroupPhoto roster photo

/-- What the edits of a group are about. -/
structure Content where
  name : String
  photo : Option FileRef
  members : List MemberBundle

def GroupRoster.content (r : GroupRoster) : Content := ⟨r.name, r.photo, r.members⟩

theorem GroupRoster.content_members (r : GroupRoster) : r.content.members = r.members := rfl

def Content.lists (c : Content) (ikSignPub : String) : Bool := c.members.any fun m => m.ikSignPub = ikSignPub

def Edit.idle (c : Content) : Edit → Bool
  | .addMember member => c.lists member.ikSignPub
  | _ => false

/-- What an edit is meant to do: add a member at the end, remove one key, or set one field. -/
def Edit.effect (c : Content) : Edit → Content
  | .addMember member => if c.lists member.ikSignPub then c else { c with members := c.members ++ [member] }
  | .removeMember ikSignPub => { c with members := c.members.filter fun m => m.ikSignPub ≠ ikSignPub }
  | .setGroupName name => { c with name }
  | .setGroupPhoto photo => { c with photo }

def Content.after (start : Content) (edits : List Edit) : Content := edits.foldl Edit.effect start

def Content.changes (c : Content) : List Edit → Nat
  | [] => 0
  | edit :: rest => (if edit.idle c then 0 else 1) + (edit.effect c).changes rest

theorem Edit.effect_idle {c : Content} {edit : Edit} (idle : edit.idle c = true) : edit.effect c = c := by
  cases edit with
  | addMember member => exact if_pos idle
  | removeMember ikSignPub => cases idle
  | setGroupName name => cases idle
  | setGroupPhoto photo => cases idle

section
variable [Signatures]

/-- A builder call on the latest roster: who makes it, and what for. -/
structure EditCall where
  editor : Identity
  edit : Edit

def EditCall.run (call : EditCall) (roster : GroupRoster) : Except GroupError GroupRoster :=
  (call.edit.call roster).run call.editor

/-- The latest roster after a call: a call that fails hands out nothing. -/
def editStep (roster : GroupRoster) (call : EditCall) : GroupRoster :=
  match call.run roster with
  | .ok next => next
  | .error _ => roster

def edited (roster : GroupRoster) (calls : List EditCall) : GroupRoster := calls.foldl editStep roster

def succeeded (roster : GroupRoster) : List EditCall → List Edit
  | [] => []
  | call :: rest =>
    match call.run roster with
    | .ok next => call.edit :: succeeded next rest
    | .error _ => succeeded roster rest

theorem EditCall.run_setGroupName (editor : Identity) (name : String) (roster : GroupRoster) :
    EditCall.run ⟨editor, .setGroupName name⟩ roster = TrinoCore.setGroupName roster editor name :=
  rfl

/-- What a successful edit makes of a roster. -/
structure Advanced (r next : GroupRoster) (edit : Edit) : Prop where
  groupId : next.groupId = r.groupId
  adminPub : next.adminPub = r.adminPub
  content : next.content = edit.effect r.content
  epoch : next.epoch = r.epoch + 1
  valid : validateRoster next = .ok ()
  keepsAdmin : ∀ ikSignPub, edit = .removeMember ikSignPub → ikSignPub ≠ r.adminPub

theorem Advanced.epoch_toNat {r next : GroupRoster} {edit : Edit} (advanced : Advanced r next edit)
    (room : r.epoch.toNat + 1 < 2 ^ 64) : next.epoch.toNat = r.epoch.toNat + 1 := by
  rw [advanced.epoch, UInt64.toNat_add, UInt64.toNat_one, Nat.mod_eq_of_lt room]

theorem EditCall.run_ok {call : EditCall} {r next : GroupRoster} (returned : call.run r = .ok next) :
    Hex.encode call.editor.ikSign.pubBytes.toList = r.adminPub ∧
      ((call.edit.idle r.content = true ∧ next = r) ∨ (call.edit.idle r.content = false ∧ Advanced r next call.edit)) := by
  obtain ⟨editor, edit⟩ := call
  cases edit with
  | addMember member =>
    obtain ⟨admin, returned⟩ := assertAdmin_ok.mp returned
    refine ⟨admin, ?_⟩
    by_cases listed : r.content.lists member.ikSignPub = true
    · rw [if_pos (show (r.members.any _) = true from listed)] at returned
      exact Or.inl ⟨listed, (Except.ok.inj returned).symm⟩
    · rw [if_neg (show ¬(r.members.any _) = true from listed)] at returned
      obtain ⟨rfl, valid⟩ := signUnsigned_ok (guard_ok.mp returned).2
      refine Or.inr ⟨Bool.eq_false_iff.mpr listed, rfl, rfl, (if_neg listed).symm, rfl, valid, ?_⟩
      intro ikSignPub absurd
      cases absurd
  | removeMember ikSignPub =>
    obtain ⟨admin, returned⟩ := assertAdmin_ok.mp returned
    obtain ⟨other, returned⟩ := guard_ok.mp returned
    obtain ⟨rfl, valid⟩ := signUnsigned_ok returned
    refine ⟨admin, Or.inr ⟨rfl, rfl, rfl, rfl, rfl, valid, ?_⟩⟩
    intro removed same
    obtain rfl := Edit.removeMember.inj same
    exact other
  | setGroupName name =>
    obtain ⟨admin, returned⟩ := assertAdmin_ok.mp returned
    obtain ⟨rfl, valid⟩ := signUnsigned_ok returned
    refine ⟨admin, Or.inr ⟨rfl, rfl, rfl, rfl, rfl, valid, ?_⟩⟩
    intro removed absurd
    cases absurd
  | setGroupPhoto photo =>
    obtain ⟨admin, returned⟩ := assertAdmin_ok.mp returned
    obtain ⟨rfl, valid⟩ := signUnsigned_ok returned
    refine ⟨admin, Or.inr ⟨rfl, rfl, rfl, rfl, rfl, valid, ?_⟩⟩
    intro removed absurd
    cases absurd

theorem EditCall.run_notAdmin {call : EditCall} {r : GroupRoster}
    (other : Hex.encode call.editor.ikSign.pubBytes.toList ≠ r.adminPub) : call.run r = .error .notAdmin := by
  have refused : assertAdmin r call.editor = .error .notAdmin := if_pos other
  obtain ⟨editor, edit⟩ := call
  cases edit with
  | addMember member =>
    change (assertAdmin r editor >>= _) = _
    rw [refused]
    rfl
  | removeMember ikSignPub =>
    change (assertAdmin r editor >>= _) = _
    rw [refused]
    rfl
  | setGroupName name =>
    change (assertAdmin r editor >>= _) = _
    rw [refused]
    rfl
  | setGroupPhoto photo =>
    change (assertAdmin r editor >>= _) = _
    rw [refused]
    rfl

/-! ### When a call succeeds -/

/-- What the builders ask of an edit: a new member bound, under keys of its own, and the admin never
removed. -/
def Edit.Allowed (adminPub : String) (c : Content) : Edit → Prop
  | .addMember member => c.lists member.ikSignPub = true ∨
      (c.members.length < maxGroupMembers ∧ memberIsBound member = true ∧
        (memberKeys (c.members ++ [member])).Nodup)
  | .removeMember ikSignPub => ikSignPub ≠ adminPub
  | .setGroupName _ => True
  | .setGroupPhoto _ => True

/-- An allowed edit keeps what `validate_roster` checks before the signature. -/
theorem WellBuilt.edit {r next : GroupRoster} (built : WellBuilt r) {edit : Edit}
    (allowed : edit.Allowed r.adminPub r.content) (own : next.adminPub = r.adminPub)
    (members : next.members = (edit.effect r.content).members) : WellBuilt next := by
  have unchanged : next.members = r.members → WellBuilt next := by
    intro same
    obtain ⟨nonempty, bounded, admin, distinct, bound⟩ := built
    unfold isMember at admin
    rw [← same] at nonempty bounded distinct bound admin
    rw [← own] at admin
    exact ⟨nonempty, bounded, admin, distinct, bound⟩
  cases edit with
  | setGroupName name => exact unchanged members
  | setGroupPhoto photo => exact unchanged members
  | addMember member =>
    rw [Edit.effect] at members
    split at members
    · exact unchanged members
    rename_i unlisted
    obtain ⟨room, bound, distinct⟩ := allowed.resolve_left unlisted
    change next.members = r.members ++ [member] at members
    refine ⟨?_, ?_, ?_, ?_, ?_⟩
    · rw [members]
      exact List.append_ne_nil_of_right_ne_nil _ (List.cons_ne_nil _ _)
    · rw [members, List.length_append]
      exact room
    · have admin := built.admin
      unfold isMember at admin ⊢
      rw [members, own, List.any_append, admin]
      rfl
    · rw [members]
      exact distinct
    · rw [members]
      intro m present
      rcases List.mem_append.mp present with old | new
      · exact built.bound m old
      · rw [List.mem_singleton.mp new]
        exact bound
  | removeMember ikSignPub =>
    change next.members = r.members.filter _ at members
    have kept : next.members.Sublist r.members := members ▸ List.filter_sublist
    have admin : isMember next next.adminPub = true := by
      obtain ⟨m, present, isAdmin⟩ := List.any_eq_true.mp built.admin
      have isAdmin := of_decide_eq_true isAdmin
      refine List.any_eq_true.mpr ⟨m, ?_, by simpa [own] using isAdmin⟩
      rw [members]
      exact List.mem_filter.mpr ⟨present, by simpa [isAdmin] using Ne.symm allowed⟩
    refine ⟨?_, kept.length_le.trans built.bounded, admin, built.distinct.sublist (kept.flatMap _),
      fun m present => built.bound m (kept.subset present)⟩
    rintro empty
    rw [isMember, empty] at admin
    cases admin

theorem signUnsigned_edit (honest : HonestSignatures) {editor : Identity} {r : GroupRoster} (built : WellBuilt r)
    (sign : ∃ privBytes, editor.ikSign = generateEd25519 privBytes)
    (admin : Hex.encode editor.ikSign.pubBytes.toList = r.adminPub) {edit : Edit}
    (allowed : edit.Allowed r.adminPub r.content) :
    ∃ next, signUnsigned r.groupId (edit.effect r.content).name (edit.effect r.content).photo r.adminPub
      (edit.effect r.content).members (r.epoch + 1) editor = .ok next := by
  let c := edit.effect r.content
  let next : GroupRoster :=
    { groupId := r.groupId, name := c.name, photo := c.photo, adminPub := r.adminPub, members := c.members
      epoch := r.epoch + 1
      signature := Hex.encode (ed25519Sign editor.ikSign
        (rosterSigningBytes r.groupId c.name c.photo r.adminPub c.members (r.epoch + 1))).toList }
  have built' : WellBuilt next := built.edit allowed rfl rfl
  exact ⟨next, signUnsigned_wellBuilt honest sign built' admin.symm rfl⟩

/-- A call of the admin succeeds exactly when its edit is allowed. -/
theorem EditCall.run_ok_iff (honest : HonestSignatures) {editor : Identity} {edit : Edit} {r : GroupRoster}
    (built : WellBuilt r) (sign : ∃ privBytes, editor.ikSign = generateEd25519 privBytes)
    (admin : Hex.encode editor.ikSign.pubBytes.toList = r.adminPub) :
    (∃ next, EditCall.run ⟨editor, edit⟩ r = .ok next) ↔ edit.Allowed r.adminPub r.content := by
  constructor
  · rintro ⟨next, returned⟩
    obtain ⟨_, ⟨idle, _⟩ | ⟨changes, advanced⟩⟩ := EditCall.run_ok returned
    · cases edit with
      | addMember member => exact Or.inl idle
      | removeMember ikSignPub => cases idle
      | setGroupName name => trivial
      | setGroupPhoto photo => trivial
    · cases edit with
      | addMember member =>
        have built' := (validateRoster_ok_iff.mp advanced.valid).1
        have unlisted : ¬r.content.lists member.ikSignPub = true := Bool.eq_false_iff.mp changes
        have members : next.members = r.members ++ [member] := by
          have whole := congrArg Content.members advanced.content
          rw [Edit.effect, if_neg unlisted] at whole
          exact whole
        have bounded := built'.bounded
        rw [members, List.length_append] at bounded
        exact Or.inr ⟨bounded, built'.bound member (by simp [members]), members ▸ built'.distinct⟩
      | removeMember ikSignPub => exact advanced.keepsAdmin ikSignPub rfl
      | setGroupName name => trivial
      | setGroupPhoto photo => trivial
  · intro allowed
    obtain ⟨next, signed⟩ := signUnsigned_edit honest built sign admin allowed
    cases edit with
    | addMember member =>
      by_cases listed : r.content.lists member.ikSignPub = true
      · refine ⟨r, assertAdmin_ok.mpr ⟨admin, ?_⟩⟩
        rw [if_pos (show (r.members.any _) = true from listed)]
        rfl
      · refine ⟨next, assertAdmin_ok.mpr ⟨admin, ?_⟩⟩
        rw [if_neg (show ¬(r.members.any _) = true from listed)]
        rw [Edit.effect, if_neg listed] at signed
        exact guard_ok.mpr ⟨Nat.not_le.mpr (allowed.resolve_left listed).1, signed⟩
    | removeMember ikSignPub => exact ⟨next, assertAdmin_ok.mpr ⟨admin, guard_ok.mpr ⟨allowed, signed⟩⟩⟩
    | setGroupName name => exact ⟨next, assertAdmin_ok.mpr ⟨admin, signed⟩⟩
    | setGroupPhoto photo => exact ⟨next, assertAdmin_ok.mpr ⟨admin, signed⟩⟩

/-! ### A history -/

/-- A roster that members accept, with the admin's entry first. -/
structure Founded (entry : MemberBundle) (r : GroupRoster) : Prop where
  valid : validateRoster r = .ok ()
  first : r.members.head? = some entry
  admin : entry.ikSignPub = r.adminPub

theorem Founded.advance {entry : MemberBundle} {r next : GroupRoster} (founded : Founded entry r) {edit : Edit}
    (advanced : Advanced r next edit) : Founded entry next := by
  refine ⟨advanced.valid, ?_, founded.admin.trans advanced.adminPub.symm⟩
  have members : next.members = (edit.effect r.content).members := congrArg Content.members advanced.content
  obtain ⟨rest, listed⟩ : ∃ rest, r.members = entry :: rest := by
    have first := founded.first
    cases present : r.members with
    | nil =>
      rw [present] at first
      cases first
    | cons head rest =>
      rw [present] at first
      exact ⟨rest, by rw [Option.some.inj first]⟩
  rw [members]
  cases edit with
  | addMember member =>
    rw [Edit.effect]
    split
    · exact founded.first
    · change (r.members ++ [member]).head? = some entry
      rw [listed]
      rfl
  | removeMember ikSignPub =>
    have kept : entry.ikSignPub ≠ ikSignPub := by
      rw [founded.admin]
      exact (advanced.keepsAdmin ikSignPub rfl).symm
    change (r.members.filter _).head? = some entry
    rw [listed, List.filter_cons_of_pos (by simpa using kept)]
    rfl
  | setGroupName name => exact founded.first
  | setGroupPhoto photo => exact founded.first

/-- What a history of edits leaves of a roster. -/
structure History (r latest : GroupRoster) (edits : List Edit) : Prop where
  groupId : latest.groupId = r.groupId
  adminPub : latest.adminPub = r.adminPub
  content : latest.content = r.content.after edits
  epoch : latest.epoch.toNat = r.epoch.toNat + r.content.changes edits
  unchanged : r.content.changes edits = 0 → latest = r

theorem History.cons {r next latest : GroupRoster} {edit : Edit} {edits : List Edit} (later : History next latest edits)
    (advanced : Advanced r next edit) (changes : edit.idle r.content = false) (room : r.epoch.toNat + 1 < 2 ^ 64) :
    History r latest (edit :: edits) := by
  have counted : r.content.changes (edit :: edits) = 1 + next.content.changes edits := by
    rw [Content.changes, changes, advanced.content]
    rfl
  refine ⟨later.groupId.trans advanced.groupId, later.adminPub.trans advanced.adminPub, ?_, ?_, ?_⟩
  · rw [later.content, advanced.content]
    rfl
  · rw [later.epoch, counted, advanced.epoch_toNat room]
    omega
  · intro zero
    omega

omit [Signatures] in
theorem History.cons_idle {r latest : GroupRoster} {edit : Edit} {edits : List Edit} (later : History r latest edits)
    (idle : edit.idle r.content = true) : History r latest (edit :: edits) := by
  have counted : r.content.changes (edit :: edits) = r.content.changes edits := by
    rw [Content.changes, idle, Edit.effect_idle idle]
    exact Nat.zero_add _
  refine ⟨later.groupId, later.adminPub, ?_, ?_, ?_⟩
  · rw [later.content, Content.after, Content.after, List.foldl_cons, Edit.effect_idle idle]
  · rw [later.epoch, counted]
  · rw [counted]
    exact later.unchanged

theorem succeeded_cons_ok {call : EditCall} {r next : GroupRoster} (returned : call.run r = .ok next)
    (rest : List EditCall) : succeeded r (call :: rest) = call.edit :: succeeded next rest := by
  rw [succeeded, returned]

theorem edited_history {entry : MemberBundle} {r : GroupRoster} (founded : Founded entry r) {calls : List EditCall}
    (room : r.epoch.toNat + calls.length < 2 ^ 64) :
    Founded entry (edited r calls) ∧ History r (edited r calls) (succeeded r calls) := by
  induction calls generalizing r with
  | nil => exact ⟨founded, rfl, rfl, rfl, rfl, fun _ => rfl⟩
  | cons call rest ih =>
    rw [List.length_cons] at room
    have latest : edited r (call :: rest) = edited (editStep r call) rest := rfl
    rw [latest]
    cases returned : call.run r with
    | error e =>
      rw [editStep, succeeded, returned]
      dsimp only
      exact ih founded (by omega)
    | ok next =>
      rw [editStep, succeeded_cons_ok returned, returned]
      dsimp only
      obtain ⟨_, ⟨idle, rfl⟩ | ⟨changes, advanced⟩⟩ := EditCall.run_ok returned
      · obtain ⟨founded', history⟩ := ih founded (by omega)
        exact ⟨founded', history.cons_idle idle⟩
      · have epoch := advanced.epoch_toNat (by omega)
        obtain ⟨founded', history⟩ := ih (founded.advance advanced) (by omega)
        exact ⟨founded', history.cons advanced changes (by omega)⟩

theorem created_founded {admin : Identity} {adminBundle : MemberBundle} {name : String} {seed : Bytes32}
    {first : GroupRoster} (created : createGroup admin adminBundle name seed = .ok first) :
    Founded adminBundle first ∧ first.epoch = 0 ∧ first.content = ⟨name, none, [adminBundle]⟩ := by
  obtain ⟨rfl, valid⟩ := signUnsigned_ok created
  exact ⟨⟨valid, rfl, rfl⟩, rfl, rfl⟩

/-- In every history of a group, the latest roster is valid and is the one its successful edits spell
out; the epoch counts them, an addition of a listed key changes nothing, no one but the admin edits,
and the admin's edits fail only where they are not allowed. -/
theorem group_history {admin : Identity} {adminBundle : MemberBundle} {name : String} {seed : Bytes32}
    {first : GroupRoster} (created : createGroup admin adminBundle name seed = .ok first) {calls : List EditCall}
    (few : calls.length < 2 ^ 64) :
    let latest := edited first calls
    let start : Content := ⟨name, none, [adminBundle]⟩
    let edits := succeeded first calls
    validateRoster latest = .ok () ∧ latest.groupId = first.groupId ∧ latest.adminPub = first.adminPub ∧
      latest.members.head? = some adminBundle ∧ latest.content = start.after edits ∧
      1 ≤ latest.members.length ∧ latest.members.length ≤ maxGroupMembers ∧
      latest.epoch.toNat = start.changes edits ∧
      (∀ editor member next, latest.content.lists member.ikSignPub = true →
        EditCall.run ⟨editor, .addMember member⟩ latest = .ok next → next = latest) ∧
      (∀ call : EditCall, Hex.encode call.editor.ikSign.pubBytes.toList ≠ first.adminPub →
        call.run latest = .error .notAdmin) ∧
      (HonestSignatures → ∀ editor edit, (∃ privBytes, editor.ikSign = generateEd25519 privBytes) →
        Hex.encode editor.ikSign.pubBytes.toList = first.adminPub →
        ((∃ next, EditCall.run ⟨editor, edit⟩ latest = .ok next) ↔ edit.Allowed first.adminPub latest.content)) := by
  intro latest start edits
  obtain ⟨founded, epoch, content⟩ := created_founded created
  have zero : first.epoch.toNat = 0 := by
    rw [epoch]
    rfl
  have room : first.epoch.toNat + calls.length < 2 ^ 64 := by omega
  obtain ⟨founded', history⟩ := edited_history founded room
  have built := (validateRoster_ok_iff.mp founded'.valid).1
  refine ⟨founded'.valid, history.groupId, history.adminPub, founded'.first, ?_, ?_, built.bounded, ?_, ?_, ?_, ?_⟩
  · exact history.content.trans (by rw [content])
  · exact List.length_pos_iff.mpr built.nonempty
  · have counted := history.epoch
    rw [zero, Nat.zero_add, content] at counted
    exact counted
  · intro editor member next listed returned
    obtain ⟨_, ⟨_, same⟩ | ⟨changes, _⟩⟩ := EditCall.run_ok returned
    · exact same
    · exact absurd listed (Bool.eq_false_iff.mp changes)
  · intro call other
    apply EditCall.run_notAdmin
    rw [history.adminPub]
    exact other
  · intro honest editor edit sign admin
    rw [← history.adminPub] at admin ⊢
    exact EditCall.run_ok_iff honest built sign admin

end

def sampleGuest : Identity :=
  { sampleIdentity with
    ikSign := generateEd25519 (sampleBytes 32 40)
    ikDh := generateX25519 FreeKey (sampleBytes 32 41)
    nostr := ⟨sampleBytes 32 42, sampleBytes 32 42⟩
    signedPrekey := createSignedPrekey FreeKey (generateEd25519 (sampleBytes 32 40)) 1 0 (sampleBytes 32 43) }

def guestMember : MemberBundle := .fromPublicBundle "guest" (publicBundleFor sampleGuest)

/-- The guest is added twice, tries to rename the group and is removed. -/
def sampleEdits : List EditCall :=
  [⟨sampleIdentity, .addMember guestMember⟩, ⟨sampleIdentity, .addMember guestMember⟩,
    ⟨sampleGuest, .setGroupName "renamed"⟩, ⟨sampleIdentity, .removeMember guestMember.ikSignPub⟩]

theorem guest_distinct : (memberKeys [sampleMember, guestMember]).Nodup := by
  have injective : Function.Injective fun key : Bytes32 => Hex.encode key.toList := fun a b same =>
    ByteVec.toList_inj.mp (Hex.encode_inj.mp same)
  exact List.Nodup.map injective (l := [sampleIdentity.ikSign.pubBytes, sampleIdentity.ikDh.pubBytes,
    sampleIdentity.nostr.pubBytes, sampleGuest.ikSign.pubBytes, sampleGuest.ikDh.pubBytes, sampleGuest.nostr.pubBytes])
    (by decide)

theorem guest_other : guestMember.ikSignPub ≠ sampleMember.ikSignPub := by
  intro same
  have keys := ByteVec.toList_inj.mp (Hex.encode_inj.mp same)
  exact absurd keys (by decide)

theorem guest_bound : memberIsBound guestMember = true :=
  ownBundle_bound freeSignatures_honest "guest" ⟨_, rfl⟩ rfl

theorem sample_guested : ∃ r, EditCall.run ⟨sampleIdentity, .addMember guestMember⟩ (sampleRoster "group" 0) = .ok r ∧
    Founded sampleMember r ∧ r.content = ⟨"group", none, [sampleMember, guestMember]⟩ ∧
    r.adminPub = sampleMember.ikSignPub := by
  obtain ⟨founded, _, _⟩ := created_founded sampleCreated
  have built := (validateRoster_ok_iff.mp founded.valid).1
  have unlisted : ¬(sampleRoster "group" 0).content.lists guestMember.ikSignPub = true := by
    intro listed
    obtain ⟨m, present, same⟩ := List.any_eq_true.mp listed
    obtain rfl := List.mem_singleton.mp present
    exact guest_other (of_decide_eq_true same).symm
  obtain ⟨r, returned⟩ : ∃ r, EditCall.run ⟨sampleIdentity, .addMember guestMember⟩ (sampleRoster "group" 0) = .ok r :=
    (EditCall.run_ok_iff freeSignatures_honest built ⟨_, rfl⟩ rfl).mpr
      (Or.inr ⟨by decide, guest_bound, guest_distinct⟩)
  obtain ⟨_, ⟨listed, _⟩ | ⟨_, advanced⟩⟩ := EditCall.run_ok returned
  · exact (unlisted listed).elim
  refine ⟨r, returned, founded.advance advanced, ?_, advanced.adminPub⟩
  rw [advanced.content, Edit.effect, if_neg unlisted]
  rfl

theorem sampleEdits_succeeded : succeeded (sampleRoster "group" 0) sampleEdits =
    [.addMember guestMember, .addMember guestMember, .removeMember guestMember.ikSignPub] := by
  obtain ⟨r, added, founded, content, admin⟩ := sample_guested
  have built := (validateRoster_ok_iff.mp founded.valid).1
  have own : Hex.encode sampleIdentity.ikSign.pubBytes.toList = r.adminPub := admin.symm
  have listed : r.content.lists guestMember.ikSignPub = true := by
    rw [content]
    simp [Content.lists]
  have again : EditCall.run ⟨sampleIdentity, .addMember guestMember⟩ r = .ok r := by
    obtain ⟨next, returned⟩ : ∃ next, EditCall.run ⟨sampleIdentity, .addMember guestMember⟩ r = .ok next :=
      (EditCall.run_ok_iff freeSignatures_honest built ⟨_, rfl⟩ own).mpr (Or.inl listed)
    obtain ⟨_, ⟨_, rfl⟩ | ⟨changes, _⟩⟩ := EditCall.run_ok returned
    · exact returned
    · exact absurd listed (Bool.eq_false_iff.mp changes)
  have refused : EditCall.run ⟨sampleGuest, .setGroupName "renamed"⟩ r = .error .notAdmin := by
    refine EditCall.run_notAdmin ?_
    rw [admin]
    exact guest_other
  obtain ⟨last, removed⟩ : ∃ last, EditCall.run ⟨sampleIdentity, .removeMember guestMember.ikSignPub⟩ r = .ok last :=
    (EditCall.run_ok_iff freeSignatures_honest built ⟨_, rfl⟩ own).mpr (by rw [admin]; exact guest_other)
  rw [sampleEdits, succeeded_cons_ok added, succeeded_cons_ok again, succeeded, refused]
  dsimp only
  rw [succeeded_cons_ok removed]
  rfl

theorem group_history_sample :
    let latest := edited (sampleRoster "group" 0) sampleEdits
    validateRoster latest = .ok () ∧ latest.members = [sampleMember] ∧ latest.epoch.toNat = 2 := by
  intro latest
  have few : sampleEdits.length < 2 ^ 64 := (show 4 < 2 ^ 64 by decide)
  obtain ⟨valid, _, _, _, content, _, _, epoch, _⟩ := group_history sampleCreated few
  rw [sampleEdits_succeeded] at content epoch
  have members := congrArg Content.members content
  rw [GroupRoster.content_members] at members
  refine ⟨valid, members.trans ?_, epoch.trans ?_⟩
  · simp [Content.after, Edit.effect, Content.lists, guest_other.symm]
  · simp [Content.changes, Edit.idle, Edit.effect, Content.lists, guest_other.symm]

end TrinoCore
