import TrinoCore.Lib.Overflow
import TrinoCore.Ratchet.Delivery

/-!
The counters of a session, with overflow checks on.

Each `+= 1` on a counter is checked here, as in a build with overflow checks; without them the same
addition wraps. The guard of `skip_message_keys` saturates, so the number `u32::MAX` passes it, and the
increment that follows is where a receiving counter overflows.
-/

namespace TrinoCore

variable {S : Type} [Primitives S]

omit [Primitives S] in
/-- `state.sending_msg_number += 1`. -/
def countSent : Mut (RatchetState S) (Fault RatchetError) Unit := do
  let state ← get
  let next ← Mut.checkedSucc state.sendingMsgNumber
  modify fun s => { s with sendingMsgNumber := next }

omit [Primitives S] in
/-- `state.receiving_msg_number += 1`. -/
def countReceived : Mut (RatchetState S) (Fault RatchetError) Unit := do
  let state ← get
  let next ← Mut.checkedSucc state.receivingMsgNumber
  modify fun s => { s with receivingMsgNumber := next }

def ratchetEncryptChecked (plaintext associatedData : Bytes) (nonce : Nonce) :
    Mut (RatchetState S) (Fault RatchetError) EncryptedMessage := do
  let state ← get
  match state.sendingChainKey with
  | none => throw (.error .noSendingChain)
  | some sendingCk =>
    let (nextCk, messageKey) ← (Mut.lift .crypto (kdfCk sendingCk)).embed
    modify fun s => { s with sendingChainKey := some nextCk }
    let header : MessageHeader :=
      { dhPub := Hex.encode state.dhs.pubBytes.toList
        pn := state.previousSendingChainLength
        n := state.sendingMsgNumber }
    countSent
    let headerBytes ← (Mut.ofExcept (encodeHeader header)).embed
    let ad := concat [associatedData, headerBytes]
    let (ciphertext, nonce) ← (Mut.lift .crypto (aesGcmEncrypt messageKey plaintext (some ad) nonce)).embed
    return { header, nonce := Hex.encode nonce.toList, ciphertext := Hex.encode ciphertext }

def skipLoopChecked (dhr : Bytes32) (until_ : UInt32) : Nat → S → Mut (RatchetState S) (Fault RatchetError) S
  | 0, ck => pure ck
  | fuel + 1, ck => do
    let state ← get
    if state.receivingMsgNumber < until_ then
      let (nextCk, mk) ← (Mut.lift .crypto (kdfCk ck)).embed
      modify fun s => bankSkippedKey s (skippedKeyId dhr state.receivingMsgNumber) mk
      countReceived
      skipLoopChecked dhr until_ fuel nextCk
    else return ck

def skipMessageKeysChecked (until_ : UInt32) : Mut (RatchetState S) (Fault RatchetError) Unit := do
  let state ← get
  match state.receivingChainKey with
  | none => return ()
  | some recvCk =>
    if state.receivingMsgNumber.saturatingAdd maxSkip < until_ then throw (.error (.tooManySkipped maxSkip))
    match state.dhr with
    | none => return ()
    | some dhr =>
      let ck ← skipLoopChecked dhr until_ (until_.toNat - state.receivingMsgNumber.toNat) recvCk
      modify fun s => { s with receivingChainKey := some ck }

def decryptOnChainChecked (msg : EncryptedMessage) (associatedData : Bytes) :
    Mut (RatchetState S) (Fault RatchetError) Bytes := do
  let state ← get
  match state.receivingChainKey with
  | none => throw (.error .noReceivingChain)
  | some recvCk =>
    let (nextCk, messageKey) ← (Mut.lift .crypto (kdfCk recvCk)).embed
    modify fun s => { s with receivingChainKey := some nextCk }
    countReceived
    let headerBytes ← (Mut.ofExcept (encodeHeader msg.header)).embed
    let ad := concat [associatedData, headerBytes]
    let ciphertext ← (Mut.ofExcept (decodeHex msg.ciphertext)).embed
    let nonce ← (Mut.ofExcept (decodeHex msg.nonce)).embed
    (Mut.lift .crypto (aesGcmDecrypt messageKey ciphertext nonce (some ad))).embed

def ratchetDecryptInnerChecked (msg : EncryptedMessage) (associatedData : Bytes) (rng : StepRandom S) :
    Mut (RatchetState S) (Fault RatchetError) Bytes := do
  let headerDh ← (Mut.ofExcept (decode32 msg.header.dhPub)).embed
  match ← (trySkippedMessageKey msg headerDh associatedData).embed with
  | some pt => return pt
  | none =>
    let state ← get
    if IsReplay state headerDh msg.header.n then throw (.error (.replay msg.header.n))
    if state.dhr ≠ some headerDh then
      skipMessageKeysChecked msg.header.pn
      (dhRatchetStep headerDh rng).embed
    skipMessageKeysChecked msg.header.n
    decryptOnChainChecked msg associatedData

/-- An error rolls the state back; an overflow ends the call before the rollback. -/
def ratchetDecryptChecked (state : RatchetState S) (msg : EncryptedMessage) (associatedData : Bytes)
    (rng : StepRandom S) : Except (Fault RatchetError) Bytes × RatchetState S :=
  match (ratchetDecryptInnerChecked msg associatedData rng).exec state with
  | (.ok pt, next) => (.ok pt, next)
  | (.error (.error e), _) => (.error (.error e), state)
  | (.error .overflow, next) => (.error .overflow, next)

/-! ### Where they overflow -/

omit [Primitives S] in
theorem countSent_agrees {st : RatchetState S} (room : st.sendingMsgNumber.toNat + 1 < 2 ^ 32) :
    Mut.Agrees countSent (modify fun s => { s with sendingMsgNumber := s.sendingMsgNumber + 1 }) st := by
  unfold Mut.Agrees countSent
  rw [Mut.exec_bind_ok (Mut.exec_get st), Mut.exec_bind_ok (Mut.exec_checkedSucc room st)]
  rfl

omit [Primitives S] in
theorem countReceived_agrees {st : RatchetState S} (room : st.receivingMsgNumber.toNat + 1 < 2 ^ 32) :
    Mut.Agrees countReceived (modify fun s => { s with receivingMsgNumber := s.receivingMsgNumber + 1 }) st := by
  unfold Mut.Agrees countReceived
  rw [Mut.exec_bind_ok (Mut.exec_get st), Mut.exec_bind_ok (Mut.exec_checkedSucc room st)]
  rfl

theorem skipLoop_agrees (dhr : Bytes32) (until_ : UInt32) (fuel : Nat) (ck : S) (st : RatchetState S) :
    Mut.Agrees (skipLoopChecked dhr until_ fuel ck) (skipLoop dhr until_ fuel ck) st := by
  induction fuel generalizing ck st with
  | zero => exact .pure ck st
  | succ fuel ih =>
    unfold skipLoopChecked skipLoop
    refine .bind_get ?_
    split
    · rename_i ahead
      have limit := until_.toNat_lt
      have below := UInt32.lt_iff_toNat_lt.mp ahead
      refine .bind_embed _ fun keys t given => ?_
      obtain rfl : t = st := by
        rw [kdfCk_eq] at given
        exact (Prod.mk.inj given).2.symm
      refine .bind_modify _ ?_
      refine .bind (countReceived_agrees ?_) fun _ next _ => ih keys.1 next
      rw [bankSkippedKey_frame]
      change t.receivingMsgNumber.toNat + 1 < 2 ^ 32
      omega
    · exact .pure ck _

theorem skipMessageKeys_agrees (until_ : UInt32) (st : RatchetState S) :
    Mut.Agrees (skipMessageKeysChecked until_) (skipMessageKeys until_) st := by
  unfold skipMessageKeysChecked skipMessageKeys
  refine .bind_get ?_
  cases st.receivingChainKey with
  | none => exact .pure () st
  | some ck =>
    dsimp only
    split
    · refine .bind (.throw _ st) fun _ t given => ?_
      cases given
    · cases st.dhr with
      | none => exact .pure () st
      | some d => exact .bind (skipLoop_agrees d until_ _ ck st) fun next t _ => .bind_modify _ (.pure _ _)

theorem encrypt_agrees {st : RatchetState S}
    (room : st.sendingChainKey = none ∨ st.sendingMsgNumber.toNat + 1 < 2 ^ 32) (pt ad : Bytes) (nonce : Nonce) :
    Mut.Agrees (ratchetEncryptChecked pt ad nonce) (ratchetEncrypt pt ad nonce) st := by
  unfold ratchetEncryptChecked ratchetEncrypt
  refine .bind_get ?_
  cases sending : st.sendingChainKey with
  | none => exact .throw _ st
  | some ck =>
    have fits : st.sendingMsgNumber.toNat + 1 < 2 ^ 32 := by
      rcases room with idle | fits
      · rw [sending] at idle
        cases idle
      · exact fits
    dsimp only
    refine .bind_embed _ fun keys t given => ?_
    obtain rfl : t = st := by
      rw [kdfCk_eq] at given
      exact (Prod.mk.inj given).2.symm
    refine .bind_modify _ (.bind (countSent_agrees fits) fun _ next _ => ?_)
    exact .bind_embed _ fun _ _ _ => .bind_embed _ fun _ _ _ => .pure _ _

theorem decryptOnChain_agrees {st : RatchetState S}
    (room : st.receivingChainKey = none ∨ st.receivingMsgNumber.toNat + 1 < 2 ^ 32) (msg : EncryptedMessage) (ad : Bytes) :
    Mut.Agrees (decryptOnChainChecked msg ad) (decryptOnChain msg ad) st := by
  unfold decryptOnChainChecked decryptOnChain
  refine .bind_get ?_
  cases receiving : st.receivingChainKey with
  | none => exact .throw _ st
  | some ck =>
    have fits : st.receivingMsgNumber.toNat + 1 < 2 ^ 32 := by
      rcases room with idle | fits
      · rw [receiving] at idle
        cases idle
      · exact fits
    dsimp only
    refine .bind_embed _ fun keys t given => ?_
    obtain rfl : t = st := by
      rw [kdfCk_eq] at given
      exact (Prod.mk.inj given).2.symm
    refine .bind_modify _ (.bind (countReceived_agrees fits) fun _ next _ => ?_)
    exact .bind_embed _ fun _ _ _ => .bind_embed _ fun _ _ _ => .bind_embed _ fun _ _ _ => .embed _ _

omit [Primitives S] in
/-- A message with the last number that the current chain is moved on to. -/
structure TakesLast (st : RatchetState S) (msg : EncryptedMessage) (d : Bytes32) : Prop where
  decoded : decode32 msg.header.dhPub = .ok d
  current : st.dhr = some d
  known : d ∉ st.retiredPeerDhKeys
  unbanked : skippedKeyId d msg.header.n ∉ st.skippedKeys
  receiving : st.receivingChainKey ≠ none
  last : msg.header.n.toNat + 1 = 2 ^ 32
  near : msg.header.n.toNat ≤ st.receivingMsgNumber.toNat + maxSkip.toNat

theorem skips_counter {st mid : RatchetState S} {until_ : UInt32} (skips : Skips st until_ mid) {d : Bytes32}
    (peer : st.dhr = some d) (ahead : st.receivingMsgNumber.toNat ≤ until_.toNat) :
    mid.receivingChainKey = none ∨ (until_.toNat ≤ st.receivingMsgNumber.toNat + maxSkip.toNat ∧
      mid.receivingMsgNumber = until_) := by
  cases receiving : st.receivingChainKey with
  | none =>
    rw [skips_idle receiving skips]
    exact Or.inl receiving
  | some ck =>
    obtain ⟨near, number, _⟩ := skips_moves skips receiving peer
    right
    rw [Nat.add_sub_cancel' ahead, UInt32.ofNat_toNat] at number
    exact ⟨near, number⟩

/-- No counter overflows unless the last number of a chain is taken. -/
theorem inner_agrees {st : RatchetState S} {msg : EncryptedMessage} (room : ∀ d, ¬TakesLast st msg d) (ad : Bytes)
    (rng : StepRandom S) : Mut.Agrees (ratchetDecryptInnerChecked msg ad rng) (ratchetDecryptInner msg ad rng) st := by
  unfold ratchetDecryptInnerChecked ratchetDecryptInner
  refine .bind_embed _ fun d t decodes => ?_
  obtain ⟨decoded, rfl⟩ : decode32 msg.header.dhPub = .ok d ∧ t = st := by
    cases decoded : decode32 msg.header.dhPub with
    | error e =>
      rw [decoded] at decodes
      cases decodes
    | ok d' =>
      rw [decoded] at decodes
      cases decodes
      exact ⟨rfl, rfl⟩
  refine .bind_embed _ fun early u tried => ?_
  cases early with
  | some pt => exact .pure pt u
  | none =>
    obtain ⟨unbanked, rfl⟩ : skippedKeyId d msg.header.n ∉ t.skippedKeys ∧ u = t := by
      cases banked : t.skippedKeys.lookup (skippedKeyId d msg.header.n) with
      | none =>
        rw [trySkipped_none ad banked] at tried
        exact ⟨Finmap.lookup_eq_none.mp banked, (Prod.mk.inj tried).2.symm⟩
      | some mk =>
        rw [trySkipped_some ad banked] at tried
        split at tried <;> cases tried
    refine .bind_get ?_
    dsimp only
    by_cases replay : IsReplay u d msg.header.n
    · rw [if_pos replay, if_pos (show d ∈ u.retiredPeerDhKeys ∨ _ from replay)]
      refine .bind (.throw _ u) fun _ _ given => ?_
      cases given
    · rw [if_neg replay, if_neg (show ¬(d ∈ u.retiredPeerDhKeys ∨ _) from replay)]
      unfold IsReplay at replay
      push Not at replay
      by_cases different : u.dhr ≠ some d
      · rw [if_pos different, if_pos different]
        refine .bind (skipMessageKeys_agrees _ u) fun _ mid _ => ?_
        refine .bind_embed _ fun _ next steps => ?_
        obtain rfl : next = stepped mid d rng := by
          rw [dhRatchetStep_exec] at steps
          exact (Prod.mk.inj steps).2.symm
        refine .bind (skipMessageKeys_agrees _ _) fun _ last skips => decryptOnChain_agrees ?_ msg ad
        rcases skips_counter (skipMessageKeys_iff.mp skips) rfl (Nat.zero_le _) with idle | ⟨near, number⟩
        · exact Or.inl idle
        · right
          rw [number]
          change msg.header.n.toNat ≤ 0 + 1000 at near
          omega
      · rw [if_neg different, if_neg different]
        have current := not_not.mp different
        refine .bind (skipMessageKeys_agrees _ u) fun _ last skips => decryptOnChain_agrees ?_ msg ad
        have ahead := UInt32.le_iff_toNat_le.mp (UInt32.not_lt.mp (replay.2 current))
        rcases skips_counter (skipMessageKeys_iff.mp skips) current ahead with idle | ⟨near, number⟩
        · exact Or.inl idle
        · by_cases receiving : u.receivingChainKey = none
          · rw [skips_idle receiving (skipMessageKeys_iff.mp skips)]
            exact Or.inl receiving
          · right
            rw [number]
            have limit := msg.header.n.toNat_lt
            by_contra full
            exact room d ⟨decoded, current, replay.1, unbanked, receiving, by omega, near⟩

theorem encrypt_overflows {st : RatchetState S} (sending : st.sendingChainKey ≠ none)
    (full : ¬st.sendingMsgNumber.toNat + 1 < 2 ^ 32) (pt ad : Bytes) (nonce : Nonce) :
    ∃ u, (ratchetEncryptChecked pt ad nonce).exec st = (.error .overflow, u) := by
  obtain ⟨ck, key⟩ := Option.ne_none_iff_exists'.mp sending
  refine ⟨{ st with sendingChainKey := some (chainStep ck) }, ?_⟩
  unfold ratchetEncryptChecked
  rw [Mut.exec_bind_ok (Mut.exec_get st), key]
  dsimp only
  refine Mut.Agrees.bind_overflow (.embed _ _) (by rw [kdfCk_eq]; exact Mut.exec_lift_ok _ _ _) ?_
  rw [Mut.exec_bind_ok (Mut.exec_modify _ _)]
  apply Mut.exec_bind_error
  unfold countSent
  rw [Mut.exec_bind_ok (Mut.exec_get _)]
  exact Mut.exec_bind_error (Mut.exec_checkedSucc_overflow full _)

theorem decryptOnChain_overflows {st : RatchetState S} {ck : S} (receiving : st.receivingChainKey = some ck)
    (full : ¬st.receivingMsgNumber.toNat + 1 < 2 ^ 32) (msg : EncryptedMessage) (ad : Bytes) :
    (decryptOnChainChecked msg ad).exec st = (.error .overflow, { st with receivingChainKey := some (chainStep ck) }) := by
  unfold decryptOnChainChecked
  rw [Mut.exec_bind_ok (Mut.exec_get st), receiving]
  dsimp only
  refine Mut.Agrees.bind_overflow (.embed _ _) (by rw [kdfCk_eq]; exact Mut.exec_lift_ok _ _ _) ?_
  rw [Mut.exec_bind_ok (Mut.exec_modify _ _)]
  apply Mut.exec_bind_error
  unfold countReceived
  rw [Mut.exec_bind_ok (Mut.exec_get _)]
  exact Mut.exec_bind_error (Mut.exec_checkedSucc_overflow full _)

theorem inner_overflows {st : RatchetState S} {msg : EncryptedMessage} {d : Bytes32} (takes : TakesLast st msg d)
    (ad : Bytes) (rng : StepRandom S) : ∃ u, (ratchetDecryptInnerChecked msg ad rng).exec st = (.error .overflow, u) := by
  obtain ⟨ck, receiving⟩ := Option.ne_none_iff_exists'.mp takes.receiving
  have limit := st.receivingMsgNumber.toNat_lt
  have last := takes.last
  have skips : Skips st msg.header.n (skipped st ck d msg.header.n) :=
    Or.inr ⟨ck, receiving, takes.near, Or.inr ⟨d, takes.current, rfl⟩⟩
  obtain ⟨_, number, chain⟩ := skips_moves skips receiving takes.current
  rw [Nat.add_sub_cancel' (by omega), UInt32.ofNat_toNat] at number
  have fresh : ¬IsReplay st d msg.header.n := by
    rintro (retired | ⟨_, behind⟩)
    · exact takes.known retired
    · have less := UInt32.lt_iff_toNat_lt.mp behind
      omega
  refine ⟨{ skipped st ck d msg.header.n with
    receivingChainKey := some (chainStep (chainStep^[msg.header.n.toNat - st.receivingMsgNumber.toNat] ck)) }, ?_⟩
  unfold ratchetDecryptInnerChecked
  refine Mut.Agrees.bind_overflow (.embed _ _) (by rw [takes.decoded]; exact Mut.exec_ofExcept_ok _ _) ?_
  refine Mut.Agrees.bind_overflow (.embed _ _) (trySkipped_none ad (Finmap.lookup_eq_none.mpr takes.unbanked)) ?_
  dsimp only
  rw [Mut.exec_bind_ok (Mut.exec_get st), if_neg fresh, if_neg (not_not.mpr takes.current)]
  refine Mut.Agrees.bind_overflow (skipMessageKeys_agrees _ st) (skipMessageKeys_iff.mpr skips) ?_
  exact decryptOnChain_overflows chain (by rw [number]; omega) msg ad

theorem decryptChecked_eq {st : RatchetState S} {msg : EncryptedMessage} (room : ∀ d, ¬TakesLast st msg d) (ad : Bytes)
    (rng : StepRandom S) : ratchetDecryptChecked st msg ad rng =
      ((ratchetDecrypt st msg ad rng).1.mapError .error, (ratchetDecrypt st msg ad rng).2) := by
  have same := inner_agrees room ad rng
  unfold Mut.Agrees at same
  unfold ratchetDecryptChecked ratchetDecrypt Mut.transaction
  rw [same, Mut.exec_embed]
  rcases (ratchetDecryptInner msg ad rng).exec st with ⟨_ | pt, next⟩ <;> rfl

/-- The state a call leaves with overflow checks on, unless a counter overflows. -/
def Call.checked (st : RatchetState S) : Call S → Option (RatchetState S)
  | .encrypt plaintext associatedData nonce =>
    Fault.survivor ((ratchetEncryptChecked plaintext associatedData nonce).exec st)
  | .decrypt message associatedData rng => Fault.survivor (ratchetDecryptChecked st message associatedData rng)

omit [Primitives S] in
/-- The call does not use up the last number of a chain. -/
def Call.Counts (st : RatchetState S) : Call S → Prop
  | .encrypt _ _ _ => st.sendingChainKey = none ∨ st.sendingMsgNumber.toNat + 1 < 2 ^ 32
  | .decrypt message _ _ => ∀ d, ¬TakesLast st message d

theorem Call.Counts.checked {st : RatchetState S} {call : Call S} (counts : call.Counts st) :
    call.checked st = some (call.next st) := by
  cases call with
  | encrypt pt ad nonce =>
    have same : (ratchetEncryptChecked pt ad nonce).exec st = _ := encrypt_agrees counts pt ad nonce
    rw [Call.checked, same, Mut.exec_embed, Fault.survivor_mapError, Call.next]
  | decrypt msg ad rng => rw [Call.checked, decryptChecked_eq counts, Fault.survivor_mapError, Call.next]

theorem checked_overflows {st : RatchetState S} {call : Call S} (full : ¬call.Counts st) : call.checked st = none := by
  cases call with
  | encrypt pt ad nonce =>
    simp only [Call.Counts, not_or] at full
    obtain ⟨u, outcome⟩ := encrypt_overflows full.1 full.2 pt ad nonce
    rw [Call.checked, outcome]
    rfl
  | decrypt msg ad rng =>
    simp only [Call.Counts, not_forall, not_not] at full
    obtain ⟨d, takes⟩ := full
    obtain ⟨u, outcome⟩ := inner_overflows takes ad rng
    rw [Call.checked, ratchetDecryptChecked, outcome]
    rfl

theorem checked_iff (st : RatchetState S) (call : Call S) : call.checked st = some (call.next st) ↔ call.Counts st := by
  refine ⟨fun survives => ?_, Call.Counts.checked⟩
  by_contra full
  rw [checked_overflows full] at survives
  cases survives

theorem accepted_counter {st next : RatchetState S} {msg : EncryptedMessage} {ad pt : Bytes} {rng : StepRandom S}
    {d : Bytes32} (room : ∀ d, ¬TakesLast st msg d) (decoded : decode32 msg.header.dhPub = .ok d)
    (unbanked : skippedKeyId d msg.header.n ∉ st.skippedKeys) (accepted : ratchetDecrypt st msg ad rng = (.ok pt, next)) :
    next.receivingMsgNumber.toNat = msg.header.n.toNat + 1 := by
  have limit := msg.header.n.toNat_lt
  rcases (ratchetDecrypt_ok_iff decoded).mp accepted with
    ⟨mk, banked, _⟩ | ⟨_, fresh, mid, ck, reaches, chain, _, rfl⟩
  · exact absurd (Finmap.mem_of_lookup_eq_some banked) unbanked
  obtain ⟨number, small⟩ : mid.receivingMsgNumber = msg.header.n ∧ msg.header.n.toNat + 1 < 2 ^ 32 := by
    rcases reaches with ⟨current, skips⟩ | ⟨_, before, _, skips⟩
    · have known : d ∉ st.retiredPeerDhKeys := fun retired => fresh (Or.inl retired)
      have ahead : st.receivingMsgNumber.toNat ≤ msg.header.n.toNat := by
        by_contra behind
        exact fresh (Or.inr ⟨current, UInt32.lt_iff_toNat_lt.mpr (by omega)⟩)
      rcases skips_counter skips current ahead with idle | ⟨near, number⟩
      · rw [idle] at chain
        cases chain
      · refine ⟨number, ?_⟩
        by_contra full
        refine room d ⟨decoded, current, known, unbanked, fun idle => ?_, by omega, near⟩
        rw [skips_idle idle skips, idle] at chain
        cases chain
    · rcases skips_counter skips rfl (Nat.zero_le _) with idle | ⟨near, number⟩
      · rw [idle] at chain
        cases chain
      · change msg.header.n.toNat ≤ 0 + 1000 at near
        exact ⟨number, by omega⟩
  change (mid.receivingMsgNumber + 1).toNat = _
  rw [number]
  exact toNat_succ small

/-! ### Runs -/

omit [Primitives S] in
/-- The call needs a number past the last one. -/
def Call.NeedsMore (st : RatchetState S) : Call S → Prop
  | .encrypt _ _ _ => st.sendingMsgNumber.toNat + 1 = 2 ^ 32
  | .decrypt message _ _ => message.header.n.toNat + 1 = 2 ^ 32 ∧
    ∀ d, decode32 message.header.dhPub = .ok d → skippedKeyId d message.header.n ∉ st.skippedKeys

def Call.Refused (st : RatchetState S) : Call S → Prop
  | .encrypt plaintext associatedData nonce =>
    ∃ e, (ratchetEncrypt plaintext associatedData nonce).exec st = (.error e, st)
  | .decrypt message associatedData rng => ∃ e, ratchetDecrypt st message associatedData rng = (.error e, st)

/-- A run without a DH step: no call gives `dhr` another value. -/
def OneChain (st : RatchetState S) : List (Call S) → Prop
  | [] => True
  | call :: rest => (call.next st).dhr = st.dhr ∧ OneChain (call.next st) rest

/-- The counters of a run are the natural numbers they stand for. -/
structure NeverWraps (st : RatchetState S) (calls : List (Call S)) : Prop where
  noOverflow : ∀ before call after, calls = before ++ call :: after →
    call.checked (runCalls st before) = some (call.next (runCalls st before))
  counter : ∀ before msg ad rng after d pt next, calls = before ++ .decrypt msg ad rng :: after →
    decode32 msg.header.dhPub = .ok d → skippedKeyId d msg.header.n ∉ (runCalls st before).skippedKeys →
    ratchetDecrypt (runCalls st before) msg ad rng = (.ok pt, next) →
    next.receivingMsgNumber.toNat = msg.header.n.toNat + 1
  distinct : ∀ before pt ad nonce between pt' ad' nonce' after m m' next next',
    calls = before ++ .encrypt pt ad nonce :: (between ++ .encrypt pt' ad' nonce' :: after) →
    (ratchetEncrypt pt ad nonce).exec (runCalls st before) = (.ok m, next) → OneChain next between →
    (ratchetEncrypt pt' ad' nonce').exec (runCalls next between) = (.ok m', next') → m.header.n ≠ m'.header.n
  refused : ∀ before call after, calls = before ++ call :: after →
    call.NeedsMore (runCalls st before) → call.Refused (runCalls st before)

theorem Call.Counts.refused {st : RatchetState S} {call : Call S} (counts : call.Counts st) (more : call.NeedsMore st) :
    call.Refused st := by
  cases call with
  | encrypt pt ad nonce =>
    rcases counts with idle | room
    · exact ⟨_, ratchetEncrypt_none idle pt ad nonce⟩
    · change st.sendingMsgNumber.toNat + 1 = 2 ^ 32 at more
      omega
  | decrypt msg ad rng =>
    obtain ⟨last, unbanked⟩ := more
    rcases outcome : ratchetDecrypt st msg ad rng with ⟨e | pt, next⟩
    · exact ⟨e, by rw [outcome, ratchetDecrypt_error outcome]⟩
    · obtain ⟨d, decoded⟩ := ratchetDecrypt_decodes outcome
      have number := accepted_counter counts decoded (unbanked d decoded) outcome
      have limit := next.receivingMsgNumber.toNat_lt
      omega

theorem encrypt_header {st next : RatchetState S} {pt ad : Bytes} {nonce : Nonce} {m : EncryptedMessage}
    (sent : (ratchetEncrypt pt ad nonce).exec st = (.ok m, next)) :
    st.sendingChainKey ≠ none ∧ m.header.n = st.sendingMsgNumber ∧ next.sendingMsgNumber = st.sendingMsgNumber + 1 := by
  cases sending : st.sendingChainKey with
  | none =>
    rw [ratchetEncrypt_none sending] at sent
    cases sent
  | some ck =>
    rw [ratchetEncrypt_some sending] at sent
    split at sent
    · cases sent
      exact ⟨nofun, rfl, rfl⟩
    · cases sent

theorem Call.Counts.sending_le {st : RatchetState S} {call : Call S} (counts : call.Counts st)
    (same : (call.next st).dhr = st.dhr) : st.sendingMsgNumber.toNat ≤ (call.next st).sendingMsgNumber.toNat := by
  cases call with
  | encrypt pt ad nonce =>
    rw [Call.next]
    cases sending : st.sendingChainKey with
    | none => rw [ratchetEncrypt_none sending]
    | some ck =>
      have room : st.sendingMsgNumber.toNat + 1 < 2 ^ 32 := by
        rcases counts with idle | room
        · rw [sending] at idle
          cases idle
        · exact room
      rw [ratchetEncrypt_some sending]
      change st.sendingMsgNumber.toNat ≤ (st.sendingMsgNumber + 1).toNat
      rw [toNat_succ room]
      exact Nat.le_succ _
  | decrypt msg ad rng =>
    rw [Call.next] at same ⊢
    rcases outcome : ratchetDecrypt st msg ad rng with ⟨e | pt, next⟩
    · rw [ratchetDecrypt_error outcome]
    · rw [outcome] at same
      obtain ⟨d, decoded⟩ := ratchetDecrypt_decodes outcome
      rcases (ratchetDecrypt_ok_iff decoded).mp outcome with
        ⟨mk, _, _, rfl⟩ | ⟨_, _, mid, ck, ⟨_, skips⟩ | ⟨other, before, _, skips⟩, _, _, rfl⟩
      · exact Nat.le_refl _
      · have kept : mid.sendingMsgNumber = st.sendingMsgNumber :=
          (congrArg RatchetState.sendingMsgNumber (skips_frame skips) :)
        change _ ≤ mid.sendingMsgNumber.toNat
        rw [kept]
      · have peer : mid.dhr = some d := (congrArg RatchetState.dhr (skips_frame skips) :)
        exact absurd (same.symm.trans peer) other

theorem OneChain.sending_le {st : RatchetState S} {calls : List (Call S)} (chain : OneChain st calls)
    (counts : ∀ before call after, calls = before ++ call :: after → call.Counts (runCalls st before)) :
    st.sendingMsgNumber.toNat ≤ (runCalls st calls).sendingMsgNumber.toNat := by
  induction calls generalizing st with
  | nil => exact Nat.le_refl _
  | cons call rest ih =>
    have first := (counts [] call rest rfl).sending_le chain.1
    have later := ih chain.2 fun before next after split => counts (call :: before) next after (by rw [split]; rfl)
    exact first.trans later

/-- The counters of a run never wrap exactly if no call uses up the last number of a chain. -/
theorem counters_never_wrap_iff (st : RatchetState S) (calls : List (Call S)) :
    NeverWraps st calls ↔
      ∀ before call after, calls = before ++ call :: after → call.Counts (runCalls st before) := by
  constructor
  · intro never before call after split
    exact (checked_iff _ _).mp (never.noOverflow before call after split)
  · intro counts
    refine ⟨fun before call after split => (counts before call after split).checked, ?_, ?_,
      fun before call after split => (counts before call after split).refused⟩
    · intro before msg ad rng after d pt next split decoded unbanked accepted
      exact accepted_counter (counts before _ after split) decoded unbanked accepted
    · intro before pt ad nonce between pt' ad' nonce' after m m' next next' split sent chain sent'
      obtain ⟨sending, first, moved⟩ := encrypt_header sent
      obtain ⟨_, second, _⟩ := encrypt_header sent'
      have room : (runCalls st before).sendingMsgNumber.toNat + 1 < 2 ^ 32 :=
        (counts before _ _ split).resolve_left sending
      have state : runCalls st (before ++ [.encrypt pt ad nonce]) = next := by
        rw [runCalls, List.foldl_append]
        exact congrArg Prod.snd sent
      have later : next.sendingMsgNumber.toNat ≤ (runCalls next between).sendingMsgNumber.toNat := by
        refine chain.sending_le fun earlier call rest inner => ?_
        have here := counts (before ++ .encrypt pt ad nonce :: earlier) call (rest ++ .encrypt pt' ad' nonce' :: after)
          (by rw [split, inner]; simp)
        have reached : runCalls st (before ++ .encrypt pt ad nonce :: earlier) = runCalls next earlier := by
          rw [← state, runCalls, runCalls, runCalls, ← List.foldl_append]
          simp
        rw [reached] at here
        exact here
      intro same
      rw [first, second] at same
      rw [moved, toNat_succ room, ← same] at later
      omega

theorem encrypts_count {st : RatchetState S} (sending : st.sendingChainKey ≠ none) (pt ad : Bytes) (nonce : Nonce)
    {k : Nat} (room : st.sendingMsgNumber.toNat + k < 2 ^ 32) :
    (runCalls st (List.replicate k (.encrypt pt ad nonce))).sendingChainKey ≠ none ∧
      (runCalls st (List.replicate k (.encrypt pt ad nonce))).sendingMsgNumber.toNat = st.sendingMsgNumber.toNat + k := by
  induction k generalizing st with
  | zero => exact ⟨sending, rfl⟩
  | succ k ih =>
    obtain ⟨ck, key⟩ := Option.ne_none_iff_exists'.mp sending
    have next : Call.next st (.encrypt pt ad nonce) = afterSend st ck := by rw [Call.next, ratchetEncrypt_some key]
    have number : (afterSend st ck).sendingMsgNumber.toNat = st.sendingMsgNumber.toNat + 1 := toNat_succ (by omega)
    have active : (afterSend st ck).sendingChainKey ≠ none := Option.some_ne_none _
    have rest := ih active (by omega)
    rw [number] at rest
    rw [List.replicate_succ, runCalls, List.foldl_cons, next]
    exact ⟨rest.1, rest.2.trans (by omega)⟩

/-- As many calls of `ratchet_encrypt` as there are numbers, on one chain. -/
theorem encrypts_overflow {st : RatchetState S} (sending : st.sendingChainKey ≠ none) (first : st.sendingMsgNumber = 0)
    (pt ad : Bytes) (nonce : Nonce) {k : Nat} (all : k + 1 = 2 ^ 32) :
    ¬NeverWraps st (List.replicate (k + 1) (.encrypt pt ad nonce)) := by
  intro never
  have zero : st.sendingMsgNumber.toNat = 0 := by rw [first]; rfl
  obtain ⟨chain, number⟩ := encrypts_count sending pt ad nonce (k := k) (by omega)
  have last := (checked_iff _ _).mp (never.noOverflow (List.replicate k (.encrypt pt ad nonce)) (.encrypt pt ad nonce) []
    List.replicate_succ')
  rcases last with idle | room
  · exact chain idle
  · omega

theorem sampleInitiator_overflow :
    ¬NeverWraps sampleInitiator (List.replicate (2 ^ 32) (.encrypt [7] [] (sampleBytes 12 0))) :=
  encrypts_overflow (k := 2 ^ 32 - 1) (by decide) rfl [7] [] (sampleBytes 12 0) rfl

end TrinoCore
