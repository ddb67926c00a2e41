import TrinoCore.Ratchet.Steps
import TrinoCore.Symbolic

namespace TrinoCore

variable {S : Type}

theorem sort_filter {s : Finset String} (p : String → Bool) :
    (s.filter (p · = true)).sort = s.sort.filter p := by
  apply List.Perm.eq_of_pairwise' (r := (· ≤ ·))
  · exact Finset.pairwise_sort _ _
  · exact (Finset.pairwise_sort s _).filter _
  · apply (List.perm_ext_iff_of_nodup (Finset.sort_nodup _ _) ((Finset.sort_nodup s _).filter _)).mpr
    intro a
    simp [and_comm]

/-- Reading a banked key takes it out of the map, the order list and the queue. -/
theorem consumed_spec {st : RatchetState S} (wf : WellFormed st) (keyId : String) :
    Banked st (consumed st keyId) ((queue st).erase keyId) (st.skippedKeys.lookup ·) := by
  have kept : ∀ other, other ∈ (queue st).erase keyId ↔ other ≠ keyId ∧ other ∈ st.skippedKeys := by
    intro other
    rw [(nodup_queue wf).mem_erase_iff, mem_queue wf]
  refine ⟨rfl, ⟨wf.nodup.filter _, ?_⟩, ?_, ?_, ?_⟩
  · intro other ordered
    obtain ⟨old, different⟩ := List.mem_filter.mp ordered
    exact Finmap.mem_erase.mpr ⟨by simpa using different, wf.banked other old⟩
  · intro covered other present
    obtain ⟨different, old⟩ := Finmap.mem_erase.mp present
    exact List.mem_filter.mpr ⟨covered other old, by simpa using different⟩
  · have order : (consumed st keyId).skippedKeyOrder = st.skippedKeyOrder.filter (· != keyId) :=
      List.filter_congr (fun other _ => by by_cases same : other = keyId <;> simp [same])
    have unordered : (st.skippedKeys.erase keyId).keys.filter (· ∉ st.skippedKeyOrder.filter (· != keyId)) =
        (st.skippedKeys.keys.filter (· ∉ st.skippedKeyOrder)).filter (fun other => (other != keyId) = true) := by
      ext other
      simp only [Finset.mem_filter, Finmap.mem_keys, Finmap.mem_erase, List.mem_filter, not_and,
        bne_iff_ne, ne_eq, not_not]
      constructor
      · intro given
        obtain ⟨⟨different, banked⟩, absent⟩ := given
        exact ⟨⟨banked, fun ordered => different (absent ordered)⟩, different⟩
      · intro given
        obtain ⟨⟨banked, absent⟩, different⟩ := given
        exact ⟨⟨different, banked⟩, fun ordered => absurd ordered absent⟩
    rw [(nodup_queue wf).erase_eq_filter, queue, queue, List.filter_append, ← sort_filter, order, ← unordered]
    rfl
  · intro other
    by_cases same : other = keyId
    · subst other
      simp [consumed, kept]
    · have lookup : (consumed st keyId).skippedKeys.lookup other = st.skippedKeys.lookup other :=
        Finmap.lookup_erase_ne same
      rw [lookup]
      split
      · rfl
      · rename_i absent
        apply Finmap.lookup_eq_none.mpr
        intro banked
        exact absent ((kept other).mpr ⟨same, banked⟩)

theorem bankAll_spec {st : RatchetState S} (wf : WellFormed st) (entries : List (String × S)) :
    WellFormed (bankAll st entries) ∧ (Covered st → Covered (bankAll st entries)) ∧
      queue (bankAll st entries) = (entries.map Prod.fst).foldl (BoundedQueue.push maxSkippedKeys) (queue st) := by
  induction entries generalizing st with
  | nil => exact ⟨wf, id, rfl⟩
  | cons entry rest ih =>
    have first := bankSkippedKey_spec wf entry.1 entry.2
    obtain ⟨wf', covered, queued⟩ := ih first.wellFormed
    rw [first.queue_eq] at queued
    exact ⟨wf', fun before => covered (first.covered before), queued⟩

theorem bankAll_append (st : RatchetState S) (front back : List (String × S)) :
    bankAll st (front ++ back) = bankAll (bankAll st front) back :=
  List.foldl_append

def SameBank (st other : RatchetState S) : Prop :=
  st.skippedKeys = other.skippedKeys ∧ st.skippedKeyOrder = other.skippedKeyOrder

theorem SameBank.trans {a b c : RatchetState S} (first : SameBank a b) (second : SameBank b c) : SameBank a c :=
  ⟨first.1.trans second.1, first.2.trans second.2⟩

theorem SameBank.withBankOf_eq {st other : RatchetState S} (same : SameBank st other) : st = withBankOf st other := by
  unfold withBankOf
  rw [← same.1, ← same.2]

theorem SameBank.wellFormed {st other : RatchetState S} (same : SameBank st other) (wf : WellFormed other) :
    WellFormed st := by
  rw [same.withBankOf_eq]
  exact wellFormed_withBankOf.mpr wf

theorem bankAll_congr {st other : RatchetState S} (same : SameBank st other) (entries : List (String × S)) :
    SameBank (bankAll st entries) (bankAll other entries) := by
  rw [same.withBankOf_eq, bankAll_withBankOf]
  exact ⟨rfl, rfl⟩

theorem card_bankAll_le {st : RatchetState S} (wf : WellFormed st) {entries : List (String × S)}
    (some_banked : entries ≠ []) : (bankAll st entries).skippedKeys.keys.card ≤ maxSkippedKeys := by
  obtain ⟨wf', _, queued⟩ := bankAll_spec wf entries
  obtain ⟨front, last, rfl⟩ := List.eq_nil_or_concat' entries |>.resolve_left some_banked
  rw [← length_queue wf', queued, List.map_append, List.foldl_append]
  exact BoundedQueue.length_push_le _ _ _

theorem card_bankAll_le_of_le {st : RatchetState S} (wf : WellFormed st)
    (within : st.skippedKeys.keys.card ≤ maxSkippedKeys) (entries : List (String × S)) :
    (bankAll st entries).skippedKeys.keys.card ≤ maxSkippedKeys := by
  by_cases empty : entries = []
  · subst entries
    exact within
  · exact card_bankAll_le wf empty

section
variable [Primitives S]

def keysSkipped (st : RatchetState S) (until_ : UInt32) : List (String × S) :=
  match st.receivingChainKey, st.dhr with
  | some ck, some d =>
    skippedEntries d ck st.receivingMsgNumber.toNat (until_.toNat - st.receivingMsgNumber.toNat)
  | _, _ => []

theorem skips_frame {st st' : RatchetState S} {until_ : UInt32} (skips : Skips st until_ st') :
    st' = withBankOf
      { st with receivingMsgNumber := st'.receivingMsgNumber, receivingChainKey := st'.receivingChainKey } st' := by
  rcases skips with ⟨_, rfl⟩ | ⟨ck, _, _, ⟨_, rfl⟩ | ⟨d, _, rfl⟩⟩
  · rfl
  · rfl
  · unfold skipped
    dsimp only
    rw [bankAll_frame]
    rfl

theorem skips_bank {st st' : RatchetState S} {until_ : UInt32} (skips : Skips st until_ st') :
    SameBank st' (bankAll st (keysSkipped st until_)) := by
  unfold keysSkipped
  rcases skips with ⟨idle, rfl⟩ | ⟨ck, receiving, _, ⟨idle, rfl⟩ | ⟨d, peer, rfl⟩⟩
  · rw [idle]
    exact ⟨rfl, rfl⟩
  · rw [receiving, idle]
    exact ⟨rfl, rfl⟩
  · rw [receiving, peer]
    exact ⟨rfl, rfl⟩

/-- The keys a call banks when it reads a message under `d` by moving the chains on. -/
def keysBanked (st : RatchetState S) (header : MessageHeader) (d : Bytes32) (rng : StepRandom S) :
    List (String × S) :=
  if st.dhr = some d then keysSkipped st header.n
  else keysSkipped st header.pn ++ keysSkipped (stepped st d rng) header.n

theorem reaches_bank {st mid : RatchetState S} {header : MessageHeader} {d : Bytes32} {rng : StepRandom S}
    (reaches : Reaches st header d rng mid) :
    SameBank mid (bankAll st (keysBanked st header d rng)) := by
  unfold keysBanked
  rcases reaches with ⟨same, skips⟩ | ⟨different, before, skips, skips'⟩
  · rw [if_pos same]
    exact skips_bank skips
  · rw [if_neg different, bankAll_append]
    have chain : keysSkipped (stepped before d rng) header.n = keysSkipped (stepped st d rng) header.n := by
      rw [skips_frame skips]
      rfl
    have first := skips_bank skips
    have second := skips_bank skips'
    rw [chain] at second
    -- the DH step in between does not touch the bank
    have between : SameBank (stepped before d rng) before := ⟨rfl, rfl⟩
    exact second.trans (bankAll_congr (between.trans first) _)

theorem reaches_keys {st mid : RatchetState S} {header : MessageHeader} {d : Bytes32} {rng : StepRandom S}
    (reaches : Reaches st header d rng mid) : mid.dhr = some d ∧
      ((st.dhr = some d ∧ mid.dhs = st.dhs ∧ mid.retiredPeerDhKeys = st.retiredPeerDhKeys) ∨
        (st.dhr ≠ some d ∧ mid.dhs = generateX25519 S rng.freshPriv ∧
          mid.retiredPeerDhKeys = retirePeerKey st d)) := by
  rcases reaches with ⟨current, skips⟩ | ⟨different, before, skips, skips'⟩
  · have frame := skips_frame skips
    exact ⟨(congrArg RatchetState.dhr frame :).trans current, Or.inl ⟨current, (congrArg RatchetState.dhs frame :),
      (congrArg RatchetState.retiredPeerDhKeys frame :)⟩⟩
  · have frame := skips_frame skips'
    have keeps : retirePeerKey before d = retirePeerKey st d := by
      rw [skips_frame skips]
      rfl
    exact ⟨(congrArg RatchetState.dhr frame :), Or.inr ⟨different, (congrArg RatchetState.dhs frame :),
      (congrArg RatchetState.retiredPeerDhKeys frame :).trans keeps⟩⟩

/-! ### Runs of calls -/

inductive Call (S : Type) where
  | encrypt (plaintext associatedData : Bytes) (nonce : Nonce)
  | decrypt (message : EncryptedMessage) (associatedData : Bytes) (rng : StepRandom S)

def Call.next (st : RatchetState S) : Call S → RatchetState S
  | .encrypt plaintext associatedData nonce => ((ratchetEncrypt plaintext associatedData nonce).exec st).2
  | .decrypt message associatedData rng => (ratchetDecrypt st message associatedData rng).2

def runCalls (st : RatchetState S) (calls : List (Call S)) : RatchetState S :=
  calls.foldl Call.next st

theorem encrypt_bank (st : RatchetState S) (plaintext associatedData : Bytes) (nonce : Nonce) :
    SameBank (Call.next st (.encrypt plaintext associatedData nonce)) st := by
  cases sending : st.sendingChainKey with
  | none =>
    simp only [Call.next, ratchetEncrypt_none sending]
    exact ⟨rfl, rfl⟩
  | some ck =>
    simp only [Call.next, ratchetEncrypt_some sending]
    exact ⟨rfl, rfl⟩

/-- An accepted message either reads its key from the bank or banks the keys it skips. -/
theorem decrypt_bank {st st' : RatchetState S} {msg : EncryptedMessage} {ad pt : Bytes} {rng : StepRandom S}
    (accepted : ratchetDecrypt st msg ad rng = (.ok pt, st')) :
    ∃ d, decode32 msg.header.dhPub = .ok d ∧
      ((skippedKeyId d msg.header.n ∈ st.skippedKeys ∧ st' = consumed st (skippedKeyId d msg.header.n)) ∨
        (skippedKeyId d msg.header.n ∉ st.skippedKeys ∧
          SameBank st' (bankAll st (keysBanked st msg.header d rng)))) := by
  obtain ⟨d, decoded⟩ := ratchetDecrypt_decodes accepted
  refine ⟨d, decoded, ?_⟩
  rcases (ratchetDecrypt_ok_iff decoded).mp accepted with
    ⟨mk, banked, _, rfl⟩ | ⟨unbanked, _, mid, ck, reaches, _, _, rfl⟩
  · exact Or.inl ⟨Finmap.mem_of_lookup_eq_some banked, rfl⟩
  · have last : SameBank (received mid ck) mid := ⟨rfl, rfl⟩
    exact Or.inr ⟨Finmap.lookup_eq_none.mp unbanked, last.trans (reaches_bank reaches)⟩

def Initial (st : RatchetState S) : Prop :=
  (∃ masterSecret spkPub rng, initInitiator masterSecret spkPub rng = .ok st) ∨
    ∃ masterSecret spkKeypair, st = initResponder masterSecret spkKeypair

theorem initial_empty {st : RatchetState S} (initial : Initial st) :
    st.skippedKeys = ∅ ∧ st.skippedKeyOrder = [] := by
  rcases initial with ⟨masterSecret, spkPub, rng, made⟩ | ⟨masterSecret, spkKeypair, rfl⟩
  · simp only [initInitiator, kdfRk_eq, Except.ok.injEq] at made
    subst st
    exact ⟨rfl, rfl⟩
  · exact ⟨rfl, rfl⟩

/-- One call keeps a bank well formed; it also keeps a covered bank covered and a bank within the
cap within the cap. -/
theorem call_wellFormed {st : RatchetState S} (wf : WellFormed st) (call : Call S) :
    WellFormed (call.next st) ∧ (Covered st → Covered (call.next st)) ∧
      (st.skippedKeys.keys.card ≤ maxSkippedKeys → (call.next st).skippedKeys.keys.card ≤ maxSkippedKeys) := by
  have unchanged : ∀ {next : RatchetState S}, SameBank next st →
      WellFormed next ∧ (Covered st → Covered next) ∧
        (st.skippedKeys.keys.card ≤ maxSkippedKeys → next.skippedKeys.keys.card ≤ maxSkippedKeys) := by
    intro next same
    refine ⟨same.wellFormed wf, ?_, ?_⟩
    · intro covered keyId banked
      rw [same.1] at banked
      rw [same.2]
      exact covered keyId banked
    · rw [same.1]
      exact id
  cases call with
  | encrypt plaintext associatedData nonce => exact unchanged (encrypt_bank st plaintext associatedData nonce)
  | decrypt msg ad rng =>
    rcases outcome : ratchetDecrypt st msg ad rng with ⟨result, next⟩
    have after : Call.next st (.decrypt msg ad rng) = next := congrArg Prod.snd outcome
    rw [after]
    cases result with
    | error e =>
      rw [ratchetDecrypt_error outcome]
      exact unchanged ⟨rfl, rfl⟩
    | ok pt =>
      obtain ⟨d, _, ⟨banked, rfl⟩ | ⟨_, same⟩⟩ := decrypt_bank outcome
      · have read := consumed_spec wf (skippedKeyId d msg.header.n)
        refine ⟨read.wellFormed, read.covered, fun within => ?_⟩
        rw [← length_queue read.wellFormed, read.queue_eq]
        rw [← length_queue wf] at within
        exact (List.length_erase_le).trans within
      · obtain ⟨wf', covered, _⟩ := bankAll_spec wf (keysBanked st msg.header d rng)
        refine ⟨same.wellFormed wf', fun before keyId banked => ?_, fun within => ?_⟩
        · rw [same.1] at banked
          rw [same.2]
          exact covered before keyId banked
        · rw [same.1]
          exact card_bankAll_le_of_le wf within _

theorem runCalls_wellFormed {st : RatchetState S} (wf : WellFormed st) (calls : List (Call S)) :
    WellFormed (runCalls st calls) ∧ (Covered st → Covered (runCalls st calls)) ∧
      (st.skippedKeys.keys.card ≤ maxSkippedKeys →
        (runCalls st calls).skippedKeys.keys.card ≤ maxSkippedKeys) := by
  induction calls generalizing st with
  | nil => exact ⟨wf, id, id⟩
  | cons call rest ih =>
    obtain ⟨wf', covered, within⟩ := call_wellFormed wf call
    obtain ⟨wf'', covered', within'⟩ := ih wf'
    exact ⟨wf'', fun before => covered' (covered before), fun before => within' (within before)⟩

/-- What one `bank_skipped_key` does: the id joins the back of the queue unless it is queued, and
what leaves the map leaves from the front, only down to the cap and never the id just added. -/
def BanksInOrder (st : RatchetState S) (keyId : String) (mk : S) : Prop :=
  let st' := bankSkippedKey st keyId mk
  ∃ evicted, BoundedQueue.enqueue (queue st) keyId = evicted ++ queue st' ∧
    (∀ other, other ∈ st'.skippedKeys ↔ other ∈ queue st') ∧
    (evicted ≠ [] → st'.skippedKeys.keys.card = maxSkippedKeys) ∧
    (keyId ∉ st.skippedKeys → keyId ∈ st'.skippedKeys) ∧
    ((st.skippedKeys.insert keyId mk).keys.card ≤ maxSkippedKeys → evicted = [])

omit [Primitives S] in
theorem banksInOrder {st : RatchetState S} (wf : WellFormed st) (keyId : String) (mk : S) :
    BanksInOrder st keyId mk := by
  have bank := bankSkippedKey_spec wf keyId mk
  have size : (BoundedQueue.enqueue (queue st) keyId).length = (st.skippedKeys.insert keyId mk).keys.card := by
    rw [← List.toFinset_card_of_nodup (BoundedQueue.nodup_enqueue (nodup_queue wf))]
    congr 1
    ext other
    rw [List.mem_toFinset, BoundedQueue.mem_enqueue, mem_queue wf, Finmap.mem_keys, Finmap.mem_insert, or_comm]
  refine ⟨(BoundedQueue.enqueue (queue st) keyId).take
    ((BoundedQueue.enqueue (queue st) keyId).length - maxSkippedKeys), ?_, ?_, ?_, ?_, ?_⟩
  · rw [bank.queue_eq]
    exact (List.take_append_drop _ _).symm
  · exact fun other => (mem_queue bank.wellFormed).symm
  · intro dropped
    have excess : maxSkippedKeys < (BoundedQueue.enqueue (queue st) keyId).length := by
      by_contra within
      exact dropped (by rw [Nat.sub_eq_zero_of_le (Nat.le_of_not_lt within), List.take_zero])
    rw [← length_queue bank.wellFormed, bank.queue_eq, BoundedQueue.push, BoundedQueue.trim, List.length_drop]
    omega
  · intro unbanked
    have positive : 0 < maxSkippedKeys := by simp [maxSkippedKeys]
    rw [← mem_queue bank.wellFormed, bank.queue_eq]
    exact BoundedQueue.mem_push_self positive (fun queued => unbanked ((mem_queue wf).mp queued))
  · intro within
    rw [size, Nat.sub_eq_zero_of_le within, List.take_zero]

/-- The bank after an accepted message: its id left both stores, or the skipped ids were pushed. -/
def ReadsOrBanks (st : RatchetState S) (header : MessageHeader) (d : Bytes32) (rng : StepRandom S)
    (next : RatchetState S) : Prop :=
  let keyId := skippedKeyId d header.n
  let entries := keysBanked st header d rng
  (keyId ∈ st.skippedKeys ∧ keyId ∉ next.skippedKeys ∧ keyId ∉ next.skippedKeyOrder ∧
      queue next = (queue st).erase keyId) ∨
    (keyId ∉ st.skippedKeys ∧ SameBank next (bankAll st entries) ∧
      queue next = (entries.map Prod.fst).foldl (BoundedQueue.push maxSkippedKeys) (queue st) ∧
      (entries ≠ [] → next.skippedKeys.keys.card ≤ maxSkippedKeys))

theorem decrypt_readsOrBanks {st next : RatchetState S} {msg : EncryptedMessage} {ad pt : Bytes}
    {rng : StepRandom S} (wf : WellFormed st) (accepted : ratchetDecrypt st msg ad rng = (.ok pt, next)) :
    ∃ d, decode32 msg.header.dhPub = .ok d ∧ ReadsOrBanks st msg.header d rng next := by
  obtain ⟨d, decoded, ⟨banked, rfl⟩ | ⟨unbanked, same⟩⟩ := decrypt_bank accepted
  · refine ⟨d, decoded, Or.inl ⟨banked, Finmap.notMem_erase_self, ?_, (consumed_spec wf _).queue_eq⟩⟩
    intro ordered
    simpa using (List.mem_filter.mp ordered).2
  · obtain ⟨_, _, queued⟩ := bankAll_spec wf (keysBanked st msg.header d rng)
    refine ⟨d, decoded, Or.inr ⟨unbanked, same, ?_, ?_⟩⟩
    · rw [same.withBankOf_eq, queue_withBankOf, queued]
    · intro some_banked
      rw [same.1]
      exact card_bankAll_le wf some_banked

/-- The bank of skipped keys is a bounded first-in first-out queue over every run of calls. -/
theorem bank_bounded_fifo {st : RatchetState S} (wf : WellFormed st) (calls : List (Call S)) :
    WellFormed (runCalls st calls) ∧
      (Initial st →
        (∀ keyId, keyId ∈ (runCalls st calls).skippedKeyOrder ↔ keyId ∈ (runCalls st calls).skippedKeys) ∧
          (runCalls st calls).skippedKeys.keys.card ≤ maxSkippedKeys) ∧
      (∀ plaintext ad nonce, SameBank (Call.next (runCalls st calls) (.encrypt plaintext ad nonce)) (runCalls st calls)) ∧
      (∀ msg ad rng e next, ratchetDecrypt (runCalls st calls) msg ad rng = (.error e, next) → next = runCalls st calls) ∧
      (∀ msg ad rng pt next, ratchetDecrypt (runCalls st calls) msg ad rng = (.ok pt, next) →
        ∃ d, decode32 msg.header.dhPub = .ok d ∧ ReadsOrBanks (runCalls st calls) msg.header d rng next) ∧
      (∀ s : RatchetState S, WellFormed s → ∀ keyId mk, BanksInOrder s keyId mk) ∧
      (∀ s : RatchetState S, Initial s ∨ s.skippedKeyOrder = [] → WellFormed s) := by
  obtain ⟨wf', covered, within⟩ := runCalls_wellFormed wf calls
  refine ⟨wf', ?_, ?_, ?_, ?_, fun s swf => banksInOrder swf, ?_⟩
  · intro initial
    obtain ⟨noKeys, noOrder⟩ := initial_empty initial
    refine ⟨fun keyId => ⟨wf'.banked keyId, covered ?_ keyId⟩, within ?_⟩
    · intro other banked
      rw [noKeys] at banked
      exact (Finmap.notMem_empty banked).elim
    · rw [noKeys, Finmap.keys_empty, Finset.card_empty]
      exact Nat.zero_le _
  · exact fun plaintext ad nonce => encrypt_bank _ plaintext ad nonce
  · exact fun msg ad rng e next failed => ratchetDecrypt_error failed
  · exact fun msg ad rng pt next accepted => decrypt_readsOrBanks wf' accepted
  · intro s start
    have noOrder : s.skippedKeyOrder = [] := start.elim (fun initial => (initial_empty initial).2) id
    exact ⟨noOrder ▸ List.nodup_nil, fun keyId ordered => by rw [noOrder] at ordered; cases ordered⟩

def sampleRandom (value : UInt8) : StepRandom FreeKey := ⟨sampleBytes 32 value, sampleMaster, sampleMaster⟩

def sampleInitiator : RatchetState FreeKey :=
  match initInitiator sampleMaster (generateX25519 FreeKey (sampleBytes 32 0)).pubBytes (sampleRandom 1) with
  | .ok st => st
  | .error _ => initResponder sampleMaster (generateX25519 FreeKey (sampleBytes 32 0))

def sampleResponder : RatchetState FreeKey := initResponder sampleMaster (generateX25519 FreeKey (sampleBytes 32 0))

def sampleChain : FreeKey := chainStart sampleMaster (x25519 (sampleBytes 32 1) (x25519Pub FreeKey (sampleBytes 32 0)))

def sampleSecond : EncryptedMessage :=
  ⟨nextHeader (afterSend sampleInitiator sampleChain), Hex.encode (sampleBytes 12 1).toList,
    Hex.encode (pack [(messageKeyOf (chainStep sampleChain)).derivation, (sampleBytes 12 1).toList, [8],
      headerAd [] sampleInitiator.dhs.pubBytes 0 1])⟩

theorem sampleSecond_decodes : decode32 sampleSecond.header.dhPub = .ok sampleInitiator.dhs.pubBytes :=
  decode32_encode sampleInitiator.dhs.pubBytes

/-- A legacy session: a banked key and no order list. -/
def sampleLegacy : RatchetState FreeKey :=
  { initResponder sampleMaster (generateX25519 FreeKey (sampleBytes 32 0)) with
    skippedKeys := (∅ : Finmap (fun _ : String => FreeKey)).insert "b" sampleMaster }

theorem skippedKeyId_ne (d : Bytes32) (n : UInt32) : skippedKeyId d n ≠ "b" := by
  intro same
  have colon : ':' ∈ (skippedKeyId d n).toList := by simp [skippedKeyId]
  rw [same] at colon
  exact absurd colon (by decide)

theorem sampleLegacy_queue : queue sampleLegacy = ["b"] := by
  unfold queue sampleLegacy
  rw [keys_insert, Finmap.keys_empty]
  simp [sortedIds, initResponder]

theorem sampleLegacy_accepts :
    ∃ next, ratchetDecrypt sampleLegacy sampleSecond [] (sampleRandom 2) = (.ok [8], next) := by
  refine ⟨_, (ratchetDecrypt_ok_iff sampleSecond_decodes).mpr (Or.inr ⟨?_, ?_, _, _,
    Or.inr ⟨?_, sampleLegacy, Or.inl ⟨rfl, rfl⟩, Or.inr ⟨_, rfl, by decide, Or.inr ⟨_, rfl, rfl⟩⟩⟩, rfl, ?_, rfl⟩)⟩
  · exact (Finmap.lookup_insert_of_ne _ (skippedKeyId_ne _ _)).trans (Finmap.lookup_empty _)
  · decide
  · intro same
    cases same
  · refine (openMessage_ok sampleSecond_decodes).mpr ⟨_, sampleBytes 12 1, Hex.decode_encode _, Hex.decode_encode _, ?_⟩
    refine freeKey_ideal.open_sealed ?_
    rfl

theorem bank_bounded_fifo_legacy :
    ∃ next, ratchetDecrypt sampleLegacy sampleSecond [] (sampleRandom 2) = (.ok [8], next) ∧
      WellFormed (runCalls sampleLegacy [.decrypt sampleSecond [] (sampleRandom 2)]) ∧
      queue next = ["b", skippedKeyId sampleInitiator.dhs.pubBytes 0] ∧
      BanksInOrder sampleLegacy "a" sampleMaster := by
  have wf : WellFormed sampleLegacy := ⟨List.nodup_nil, fun keyId ordered => by cases ordered⟩
  obtain ⟨next, accepted⟩ := sampleLegacy_accepts
  obtain ⟨_, _, _, _, reads, inOrder, _⟩ := bank_bounded_fifo wf []
  obtain ⟨wf', _⟩ := bank_bounded_fifo wf [.decrypt sampleSecond [] (sampleRandom 2)]
  refine ⟨next, accepted, wf', ?_, inOrder sampleLegacy wf "a" sampleMaster⟩
  obtain ⟨d, decoded, ⟨banked, _⟩ | ⟨_, _, queued, _⟩⟩ := reads sampleSecond [] (sampleRandom 2) [8] next accepted
  · rcases Finmap.mem_insert.mp banked with same | absurd
    · exact (skippedKeyId_ne _ _ same).elim
    · exact (Finmap.notMem_empty absurd).elim
  · obtain rfl := Except.ok.inj (sampleSecond_decodes.symm.trans decoded)
    rw [queued]
    change [skippedKeyId sampleInitiator.dhs.pubBytes 0].foldl (BoundedQueue.push maxSkippedKeys) (queue sampleLegacy) = _
    have absent : skippedKeyId sampleInitiator.dhs.pubBytes 0 ∉ ["b"] := by simp [skippedKeyId_ne]
    rw [sampleLegacy_queue, List.foldl_cons, List.foldl_nil, BoundedQueue.push, BoundedQueue.enqueue, if_neg absent]
    exact BoundedQueue.trim_of_le (by simp [maxSkippedKeys])

end
end TrinoCore
