import TrinoCore.Ratchet.Fifo

/-!
A session that was sealed before the bank had an order and before peer keys were retired: both lists
load as empty.

A call reads the order list only to evict and the retired keys only to classify a replay, so two
states that differ in these lists do the same, up to those two decisions.
-/

namespace TrinoCore

variable {S : Type}

/-- `st` as it loads from a session without `skipped_key_order` and `retired_peer_dh_keys`. -/
def reloaded (st : RatchetState S) : RatchetState S :=
  { st with skippedKeyOrder := [], retiredPeerDhKeys := [] }

/-- Two states that differ at most in the two lists. -/
def Alike (st other : RatchetState S) : Prop := reloaded st = reloaded other

def chains (st : RatchetState S) : RatchetState S :=
  { st with skippedKeys := ∅, skippedKeyOrder := [], retiredPeerDhKeys := [] }

theorem Alike.symm {st other : RatchetState S} (alike : Alike st other) : Alike other st := Eq.symm alike

theorem Alike.chains {st other : RatchetState S} (alike : Alike st other) : chains st = chains other :=
  (congrArg TrinoCore.chains (show reloaded st = reloaded other from alike) :)

theorem Alike.bank {st other : RatchetState S} (alike : Alike st other) : st.skippedKeys = other.skippedKeys :=
  (congrArg RatchetState.skippedKeys alike :)

theorem alike_of_bank {st other : RatchetState S} (same : chains st = chains other)
    (bank : st.skippedKeys = other.skippedKeys) : Alike st other := by
  have whole : ∀ s : RatchetState S, reloaded s = { chains s with skippedKeys := s.skippedKeys } := fun _ => rfl
  rw [Alike, whole, whole, same, bank]

theorem reloaded_alike (st : RatchetState S) : Alike st (reloaded st) := rfl

def Evicts (st : RatchetState S) : List (String × S) → Prop
  | [] => False
  | (keyId, mk) :: rest =>
    (∃ other ∈ st.skippedKeys.insert keyId mk, other ∉ (bankSkippedKey st keyId mk).skippedKeys) ∨
      Evicts (bankSkippedKey st keyId mk) rest

theorem insert_within {st : RatchetState S} (wf : WellFormed st) {keyId : String} {mk : S}
    (kept : ∀ other ∈ st.skippedKeys.insert keyId mk, other ∈ (bankSkippedKey st keyId mk).skippedKeys) :
    (st.skippedKeys.insert keyId mk).keys.card ≤ maxSkippedKeys := by
  have bank := bankSkippedKey_spec wf keyId mk
  have inside : (st.skippedKeys.insert keyId mk).keys ⊆ (bankSkippedKey st keyId mk).skippedKeys.keys :=
    fun other present => Finmap.mem_keys.mpr (kept other (Finmap.mem_keys.mp present))
  have size : (bankSkippedKey st keyId mk).skippedKeys.keys.card ≤ maxSkippedKeys := by
    rw [← length_queue bank.wellFormed, bank.queue_eq]
    exact BoundedQueue.length_push_le _ _ _
  exact (Finset.card_le_card inside).trans size

/-- A bank that stays within the cap takes the key whatever the order list says. -/
theorem skippedKeys_within {st : RatchetState S} {keyId : String} {mk : S}
    (within : (st.skippedKeys.insert keyId mk).keys.card ≤ maxSkippedKeys) :
    (bankSkippedKey st keyId mk).skippedKeys = st.skippedKeys.insert keyId mk := by
  unfold bankSkippedKey evictOldestSkippedKeys
  dsimp only
  cases st.skippedKeys.lookup keyId with
  | none => exact congrArg RatchetState.skippedKeys (if_pos within)
  | some _ => exact congrArg RatchetState.skippedKeys (if_pos within)

theorem bankAll_same {st other : RatchetState S} (wf : WellFormed st) (same : st.skippedKeys = other.skippedKeys)
    {entries : List (String × S)} (kept : ¬Evicts st entries) :
    (bankAll st entries).skippedKeys = (bankAll other entries).skippedKeys := by
  induction entries generalizing st other with
  | nil => exact same
  | cons entry rest ih =>
    obtain ⟨keyId, mk⟩ := entry
    obtain ⟨first, later⟩ := not_or.mp kept
    have within : (st.skippedKeys.insert keyId mk).keys.card ≤ maxSkippedKeys := by
      apply insert_within wf
      intro present banked
      by_contra lost
      exact first ⟨present, banked, lost⟩
    have within' : (other.skippedKeys.insert keyId mk).keys.card ≤ maxSkippedKeys := by
      rw [← same]
      exact within
    apply ih (bankSkippedKey_spec wf keyId mk).wellFormed _ later
    rw [skippedKeys_within within, skippedKeys_within within', same]

section
variable [Primitives S]

theorem skips_chains {st other st' : RatchetState S} {until_ : UInt32} (same : chains st = chains other)
    (skips : Skips st until_ st') : ∃ other', Skips other until_ other' ∧ chains st' = chains other' := by
  have receiving : st.receivingChainKey = other.receivingChainKey := (congrArg RatchetState.receivingChainKey same :)
  have number : st.receivingMsgNumber = other.receivingMsgNumber := (congrArg RatchetState.receivingMsgNumber same :)
  have peer : st.dhr = other.dhr := (congrArg RatchetState.dhr same :)
  rcases skips with ⟨idle, rfl⟩ | ⟨ck, chain, near, ⟨idle, rfl⟩ | ⟨d, known, rfl⟩⟩
  · exact ⟨other, Or.inl ⟨receiving.symm.trans idle, rfl⟩, same⟩
  · rw [receiving] at chain
    rw [number] at near
    exact ⟨other, Or.inr ⟨ck, chain, near, Or.inl ⟨peer.symm.trans idle, rfl⟩⟩, same⟩
  · have whole : ∀ s : RatchetState S, chains (skipped s ck d until_) = chains (skipped (chains s) ck d until_) := by
      intro s
      unfold skipped
      dsimp only
      rw [bankAll_frame, bankAll_frame (chains s)]
      rfl
    rw [receiving] at chain
    rw [number] at near
    exact ⟨skipped other ck d until_, Or.inr ⟨ck, chain, near, Or.inr ⟨d, peer.symm.trans known, rfl⟩⟩,
      by rw [whole st, same, ← whole other]⟩

theorem stepped_chains {st other : RatchetState S} (same : chains st = chains other) (d : Bytes32) (rng : StepRandom S) :
    chains (stepped st d rng) = chains (stepped other d rng) := by
  have whole : ∀ s : RatchetState S, chains (stepped s d rng) = chains (stepped (chains s) d rng) := fun _ => rfl
  rw [whole st, same, ← whole other]

theorem received_chains {st other : RatchetState S} (same : chains st = chains other) (ck : S) :
    chains (received st ck) = chains (received other ck) := by
  have whole : ∀ s : RatchetState S, chains (received s ck) = received (chains s) ck := fun _ => rfl
  rw [whole, whole, same]

theorem reaches_chains {st other mid : RatchetState S} {header : MessageHeader} {d : Bytes32} {rng : StepRandom S}
    (same : chains st = chains other) (reaches : Reaches st header d rng mid) :
    ∃ mid', Reaches other header d rng mid' ∧ chains mid = chains mid' := by
  have peer : st.dhr = other.dhr := (congrArg RatchetState.dhr same :)
  rcases reaches with ⟨current, skips⟩ | ⟨different, before, skips, skips'⟩
  · obtain ⟨mid', skips', same'⟩ := skips_chains same skips
    exact ⟨mid', Or.inl ⟨peer.symm.trans current, skips'⟩, same'⟩
  · obtain ⟨before', first, sameBefore⟩ := skips_chains same skips
    obtain ⟨mid', second, sameMid⟩ := skips_chains (stepped_chains sameBefore d rng) skips'
    exact ⟨mid', Or.inr ⟨fun current => different (peer.trans current), before', first, second⟩, sameMid⟩

theorem keysBanked_chains (st : RatchetState S) (header : MessageHeader) (d : Bytes32) (rng : StepRandom S) :
    keysBanked st header d rng = keysBanked (chains st) header d rng := rfl

/-! ### Calls -/

theorem encrypt_alike {st other : RatchetState S} (alike : Alike st other) (pt ad : Bytes) (nonce : Nonce) :
    ((ratchetEncrypt pt ad nonce).exec st).1 = ((ratchetEncrypt pt ad nonce).exec other).1 ∧
      Alike ((ratchetEncrypt pt ad nonce).exec st).2 ((ratchetEncrypt pt ad nonce).exec other).2 := by
  have sending : st.sendingChainKey = other.sendingChainKey := (congrArg RatchetState.sendingChainKey alike :)
  cases chain : st.sendingChainKey with
  | none =>
    rw [ratchetEncrypt_none chain, ratchetEncrypt_none (sending.symm.trans chain)]
    exact ⟨rfl, alike⟩
  | some ck =>
    rw [ratchetEncrypt_some chain, ratchetEncrypt_some (sending.symm.trans chain)]
    have own : st.dhs = other.dhs := (congrArg RatchetState.dhs alike :)
    have previous : st.previousSendingChainLength = other.previousSendingChainLength :=
      (congrArg RatchetState.previousSendingChainLength alike :)
    have number : st.sendingMsgNumber = other.sendingMsgNumber := (congrArg RatchetState.sendingMsgNumber alike :)
    refine ⟨?_, (congrArg (afterSend · ck) alike :)⟩
    dsimp only [nextHeader]
    rw [own, previous, number]

/-- A call with this message evicts a banked key, if it banks at all. -/
def DecryptEvicts (st : RatchetState S) (msg : EncryptedMessage) (rng : StepRandom S) : Prop :=
  ∃ d, decode32 msg.header.dhPub = .ok d ∧ st.skippedKeys.lookup (skippedKeyId d msg.header.n) = none ∧
    Evicts st (keysBanked st msg.header d rng)

/-- What one state accepts the other accepts, unless it takes the message for one of a retired chain.
The states stay alike if nothing is evicted. -/
theorem Alike.accepts {st other next : RatchetState S} (alike : Alike st other) {msg : EncryptedMessage}
    {ad pt : Bytes} {rng : StepRandom S} {d : Bytes32}
    (decoded : decode32 msg.header.dhPub = .ok d) (accepted : ratchetDecrypt st msg ad rng = (.ok pt, next))
    (unretired : ∀ mid ck, Reaches st msg.header d rng mid → mid.receivingChainKey = some ck →
      openMessage (messageKeyOf ck) msg ad = .ok pt → d ∉ other.retiredPeerDhKeys) :
    ∃ next', ratchetDecrypt other msg ad rng = (.ok pt, next') ∧
      (WellFormed st → ¬DecryptEvicts st msg rng → Alike next next') := by
  have bank := alike.bank
  rcases (ratchetDecrypt_ok_iff decoded).mp accepted with
    ⟨mk, banked, opens, rfl⟩ | ⟨unbanked, unread, mid, ck, reaches, receiving, opens, rfl⟩
  · refine ⟨_, (ratchetDecrypt_ok_iff decoded).mpr (Or.inl ⟨mk, bank ▸ banked, opens, rfl⟩), fun _ _ => ?_⟩
    have whole : ∀ (s : RatchetState S) keyId, reloaded (consumed s keyId) = reloaded (consumed (reloaded s) keyId) :=
      fun _ _ => rfl
    rw [Alike, whole st, alike, ← whole other]
  · obtain ⟨mid', reaches', same⟩ := reaches_chains alike.chains reaches
    have receiving' : mid'.receivingChainKey = some ck :=
      (congrArg RatchetState.receivingChainKey same :).symm.trans receiving
    have unread' : ¬IsReplay other d msg.header.n := by
      rintro (retired | ⟨current, passed⟩)
      · exact unretired mid ck reaches receiving opens retired
      · have peer : st.dhr = other.dhr := (congrArg RatchetState.dhr alike :)
        have number : st.receivingMsgNumber = other.receivingMsgNumber :=
          (congrArg RatchetState.receivingMsgNumber alike :)
        exact unread (Or.inr ⟨peer.trans current, number ▸ passed⟩)
    refine ⟨_, (ratchetDecrypt_ok_iff decoded).mpr
      (Or.inr ⟨bank ▸ unbanked, unread', mid', ck, reaches', receiving', opens, rfl⟩), fun wf kept => ?_⟩
    apply alike_of_bank (received_chains same ck)
    have noneLost : ¬Evicts st (keysBanked st msg.header d rng) := fun lost => kept ⟨d, decoded, unbanked, lost⟩
    have entries : keysBanked other msg.header d rng = keysBanked st msg.header d rng := by
      rw [keysBanked_chains, ← alike.chains, ← keysBanked_chains]
    have source := (reaches_bank reaches').1
    rw [entries] at source
    exact ((reaches_bank reaches).1.trans (bankAll_same wf bank noneLost)).trans source.symm

omit [Primitives S] in
theorem mem_retirePeerKey {st : RatchetState S} {d key : Bytes32} (retired : key ∈ retirePeerKey st d) :
    key ∈ st.retiredPeerDhKeys ∨ st.dhr = some key := by
  unfold retirePeerKey at retired
  split at retired
  · exact Or.inl retired
  · rename_i previous current
    split at retired
    · dsimp only at retired
      have grown : key ∈ st.retiredPeerDhKeys ++ [previous] := by
        split at retired
        · exact List.mem_of_mem_drop retired
        · exact retired
      rcases List.mem_append.mp grown with old | new
      · exact Or.inl old
      · obtain rfl := List.mem_singleton.mp new
        exact Or.inr current
    · exact Or.inl retired

theorem accepted_retired {st next : RatchetState S} {msg : EncryptedMessage} {ad pt : Bytes} {rng : StepRandom S}
    (accepted : ratchetDecrypt st msg ad rng = (.ok pt, next)) {key : Bytes32} (retired : key ∈ next.retiredPeerDhKeys) :
    key ∈ st.retiredPeerDhKeys ∨ (st.dhr = some key ∧ next.dhr ≠ st.dhr) := by
  obtain ⟨d, decoded⟩ := ratchetDecrypt_decodes accepted
  rcases (ratchetDecrypt_ok_iff decoded).mp accepted with ⟨mk, _, _, rfl⟩ | ⟨_, _, mid, ck, reaches, _, _, rfl⟩
  · exact Or.inl retired
  · obtain ⟨peer, ⟨_, _, same⟩ | ⟨different, _, grown⟩⟩ := reaches_keys reaches
    · exact Or.inl (same ▸ retired)
    · have peer' : (received mid ck).dhr = some d := peer
      rw [peer']
      rcases mem_retirePeerKey (grown ▸ retired : key ∈ retirePeerKey st d) with old | current
      · exact Or.inl old
      · exact Or.inr ⟨current, different.symm⟩

theorem encrypt_retired (st : RatchetState S) (pt ad : Bytes) (nonce : Nonce) :
    ((ratchetEncrypt pt ad nonce).exec st).2.retiredPeerDhKeys = st.retiredPeerDhKeys := by
  cases sending : st.sendingChainKey with
  | none => rw [ratchetEncrypt_none sending]
  | some ck =>
    rw [ratchetEncrypt_some sending]
    rfl

end
end TrinoCore
