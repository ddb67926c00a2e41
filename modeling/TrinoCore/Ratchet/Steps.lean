import TrinoCore.Ratchet.Bank

/-!
What each step of the ratchet does, as an equation on states. The key derivations never fail for the
lengths they ask for, so the error paths left are the guards and the AEAD.
-/

namespace TrinoCore

variable {S : Type}

theorem toNat_succ {n : UInt32} (room : n.toNat + 1 < 2 ^ 32) : (n + 1).toNat = n.toNat + 1 := by
  rw [UInt32.toNat_add, UInt32.toNat_one]
  exact Nat.mod_eq_of_lt room

theorem toNat_ofNat {n : Nat} (room : n < 2 ^ 32) : (UInt32.ofNat n).toNat = n := by
  rw [UInt32.toNat_ofNat']
  exact Nat.mod_eq_of_lt room

theorem saturatingAdd_lt {n until_ : UInt32} :
    n.saturatingAdd maxSkip < until_ ↔ n.toNat + maxSkip.toNat < until_.toNat := by
  have bound := until_.toNat_lt
  rw [UInt32.lt_iff_toNat_lt, UInt32.toNat_saturatingAdd]
  omega

theorem skippedKeyId_inj {d d' : Bytes32} {n n' : UInt32} :
    skippedKeyId d n = skippedKeyId d' n' ↔ d = d' ∧ n = n' := by
  constructor
  · intro h
    obtain ⟨sameKey, rest⟩ := Hex.encode_append_inj h
    have digits := congrArg String.toList ((String.append_right_inj ":").mp rest)
    rw [Nat.toList_repr, Nat.toList_repr] at digits
    have values := congrArg (Nat.ofDigitChars 10 · 0) digits
    simp only [Nat.ofDigitChars_ten_toDigits] at values
    exact ⟨sameKey, UInt32.toNat_inj.mp values⟩
  · intro given
    obtain ⟨rfl, rfl⟩ := given
    rfl

@[simp] theorem decode32_encode (d : Bytes32) : decode32 (Hex.encode d.toList) = .ok d := by
  simp [decode32]

theorem encodeHeader_ok {h : MessageHeader} {d : Bytes32} (decoded : decode32 h.dhPub = .ok d) :
    encodeHeader h = .ok (d.toList ++ h.pn.toBeBytes ++ h.n.toBeBytes) := by
  unfold encodeHeader
  rw [decoded]
  rfl

theorem headerBytes_inj {ad ad' : Bytes} {d d' : Bytes32} {pn pn' n n' : UInt32}
    (h : concat [ad, d.toList ++ pn.toBeBytes ++ n.toBeBytes] =
      concat [ad', d'.toList ++ pn'.toBeBytes ++ n'.toBeBytes]) :
    ad = ad' ∧ d = d' ∧ pn = pn' ∧ n = n' := by
  simp only [concat, List.flatten_cons, List.flatten_nil, List.append_nil] at h
  have lengths : (d.toList ++ pn.toBeBytes ++ n.toBeBytes).length =
      (d'.toList ++ pn'.toBeBytes ++ n'.toBeBytes).length := by
    simp only [List.length_append, List.Vector.toList_length, UInt32.length_toBeBytes]
  obtain ⟨sameAd, header⟩ := List.append_inj' h lengths
  obtain ⟨front, sameN⟩ := List.append_inj' header (by simp only [UInt32.length_toBeBytes])
  obtain ⟨sameKey, samePn⟩ := List.append_inj' front (by simp only [UInt32.length_toBeBytes])
  exact ⟨sameAd, ByteVec.toList_inj.mp sameKey, UInt32.toBeBytes_inj.mp samePn, UInt32.toBeBytes_inj.mp sameN⟩

section
variable [Primitives S]

def rootStep (rk dhOut : S) : S := hkdfBlock [dhOut] rk kdfRkInfo 0
def chainStart (rk dhOut : S) : S := hkdfBlock [dhOut] rk kdfRkInfo 1
def chainStep (ck : S) : S := hkdfBlock [ck] zeroSalt kdfCkInfoChain 0
def messageKeyOf (ck : S) : S := hkdfBlock [ck] zeroSalt kdfCkInfoMsg 0

def messageKeyAt (ck : S) (n : Nat) : S := messageKeyOf (chainStep^[n] ck)

theorem kdfRk_eq (rk dhOut : S) : kdfRk rk dhOut = .ok (rootStep rk dhOut, chainStart rk dhOut) := rfl

theorem kdfCk_eq (ck : S) : kdfCk ck = .ok (chainStep ck, messageKeyOf ck) := rfl

/-! ### Sending -/

def nextHeader (st : RatchetState S) : MessageHeader :=
  { dhPub := Hex.encode st.dhs.pubBytes.toList
    pn := st.previousSendingChainLength
    n := st.sendingMsgNumber }

/-- The bytes authenticated with a message of this header. -/
def headerAd (ad : Bytes) (d : Bytes32) (pn n : UInt32) : Bytes :=
  concat [ad, d.toList ++ pn.toBeBytes ++ n.toBeBytes]

def afterSend (st : RatchetState S) (ck : S) : RatchetState S :=
  { st with sendingChainKey := some (chainStep ck), sendingMsgNumber := st.sendingMsgNumber + 1 }

theorem ratchetEncrypt_none {st : RatchetState S} (idle : st.sendingChainKey = none)
    (pt ad : Bytes) (nonce : Nonce) :
    (ratchetEncrypt pt ad nonce).exec st = (.error .noSendingChain, st) := by
  unfold ratchetEncrypt
  rw [Mut.exec_bind_ok (Mut.exec_get st), idle]
  rfl

/-- Encrypting on a sending chain always moves the chain on; only the AEAD decides the result. -/
theorem ratchetEncrypt_some {st : RatchetState S} {ck : S} (sending : st.sendingChainKey = some ck)
    (pt ad : Bytes) (nonce : Nonce) :
    (ratchetEncrypt pt ad nonce).exec st =
      (match aeadSeal (messageKeyOf ck) nonce pt
          (headerAd ad st.dhs.pubBytes st.previousSendingChainLength st.sendingMsgNumber) with
        | some ct => .ok ⟨nextHeader st, Hex.encode nonce.toList, Hex.encode ct⟩
        | none => .error (.crypto .aead), afterSend st ck) := by
  have header := encodeHeader_ok (h := nextHeader st) (decode32_encode st.dhs.pubBytes)
  unfold nextHeader at header
  unfold ratchetEncrypt
  rw [Mut.exec_bind_ok (Mut.exec_get st), sending]
  dsimp only
  rw [kdfCk_eq, Mut.exec_bind_ok (Mut.exec_lift_ok _ _ _)]
  dsimp only
  rw [Mut.exec_bind_ok (Mut.exec_modify _ _), Mut.exec_bind_ok (Mut.exec_modify _ _), header,
    Mut.exec_bind_ok (Mut.exec_ofExcept_ok _ _)]
  simp only [aesGcmEncrypt, Option.getD_some]
  unfold headerAd
  cases aeadSeal (messageKeyOf ck) nonce pt _ with
  | none => rfl
  | some ct => rfl

/-! ### Opening a message -/

/-- The tail that both receiving paths share: rebuild the associated data, decode, decrypt. -/
def openMessage (mk : S) (msg : EncryptedMessage) (ad : Bytes) : Except RatchetError Bytes := do
  let headerBytes ← encodeHeader msg.header
  let ciphertext ← decodeHex msg.ciphertext
  let nonce ← decodeHex msg.nonce
  (aesGcmDecrypt mk ciphertext nonce (some (concat [ad, headerBytes]))).mapError .crypto

theorem openMessage_ok {mk : S} {msg : EncryptedMessage} {ad pt : Bytes} {d : Bytes32}
    (decoded : decode32 msg.header.dhPub = .ok d) :
    openMessage mk msg ad = .ok pt ↔
      ∃ (ct : Bytes) (nonce : Nonce), Hex.decode msg.ciphertext = some ct ∧
        Hex.decode msg.nonce = some nonce.toList ∧
        aeadOpen mk nonce ct (headerAd ad d msg.header.pn msg.header.n) = some pt := by
  unfold openMessage
  rw [encodeHeader_ok decoded]
  simp only [decodeHex, headerAd, Except.bind, bind]
  cases ciphertext : Hex.decode msg.ciphertext with
  | none => simp
  | some ct =>
    cases hexNonce : Hex.decode msg.nonce with
    | none => simp
    | some bytes =>
      simp only [Option.some.injEq, exists_and_left, exists_eq_left']
      constructor
      · intro h
        cases opened : aesGcmDecrypt mk ct bytes
            (some (concat [ad, d.toList ++ msg.header.pn.toBeBytes ++ msg.header.n.toBeBytes])) with
        | error e => rw [opened] at h; cases h
        | ok plain =>
          rw [opened] at h
          obtain ⟨nonce, same, opens⟩ := aesGcmDecrypt_ok opened
          have equal : plain = pt := Except.ok.inj h
          exact ⟨nonce, same, by rw [← equal]; exact opens⟩
      · intro given
        obtain ⟨nonce, rfl, opens⟩ := given
        simp only [aesGcmDecrypt, ByteVec.ofBytes?_toList, Option.getD_some, opens]
        rfl

def consumed (st : RatchetState S) (keyId : String) : RatchetState S :=
  { st with
    skippedKeys := st.skippedKeys.erase keyId
    skippedKeyOrder := st.skippedKeyOrder.filter (· ≠ keyId) }

theorem trySkipped_none {st : RatchetState S} {msg : EncryptedMessage} {d : Bytes32} (ad : Bytes)
    (unbanked : st.skippedKeys.lookup (skippedKeyId d msg.header.n) = none) :
    (trySkippedMessageKey msg d ad).exec st = (.ok none, st) := by
  unfold trySkippedMessageKey
  dsimp only
  rw [Mut.exec_bind_ok (Mut.exec_get st), unbanked]
  rfl

theorem trySkipped_some {st : RatchetState S} {msg : EncryptedMessage} {d : Bytes32} {mk : S} (ad : Bytes)
    (banked : st.skippedKeys.lookup (skippedKeyId d msg.header.n) = some mk) :
    (trySkippedMessageKey msg d ad).exec st = match openMessage mk msg ad with
      | .ok pt => (.ok (some pt), consumed st (skippedKeyId d msg.header.n))
      | .error e => (.error e, st) := by
  unfold trySkippedMessageKey openMessage
  dsimp only
  rw [Mut.exec_bind_ok (Mut.exec_get st), banked]
  dsimp only
  cases encodeHeader msg.header with
  | error e => rfl
  | ok headerBytes =>
    cases decodeHex msg.ciphertext with
    | error e => rfl
    | ok ct =>
      cases decodeHex msg.nonce with
      | error e => rfl
      | ok nonce =>
        rw [Mut.exec_bind_ok (Mut.exec_ofExcept_ok _ _), Mut.exec_bind_ok (Mut.exec_ofExcept_ok _ _),
          Mut.exec_bind_ok (Mut.exec_ofExcept_ok _ _)]
        simp only [bind, Except.bind]
        cases aesGcmDecrypt mk ct nonce (some (concat [ad, headerBytes])) with
        | error e => rfl
        | ok pt => rfl

/-! ### Skipping ahead -/

omit [Primitives S] in
theorem evict_withBankOf (st source : RatchetState S) :
    evictOldestSkippedKeys (withBankOf st source) = withBankOf st (evictOldestSkippedKeys source) := by
  unfold evictOldestSkippedKeys adoptUnorderedSkippedKeys withBankOf
  dsimp only
  repeat' split
  all_goals rfl

omit [Primitives S] in
/-- Banking reads and writes nothing but the bank. -/
theorem bankSkippedKey_withBankOf (st source : RatchetState S) (keyId : String) (mk : S) :
    bankSkippedKey (withBankOf st source) keyId mk = withBankOf st (bankSkippedKey source keyId mk) := by
  have lookup : (withBankOf st source).skippedKeys.lookup keyId = source.skippedKeys.lookup keyId := rfl
  unfold bankSkippedKey
  dsimp only
  rw [lookup]
  cases source.skippedKeys.lookup keyId with
  | some _ => exact evict_withBankOf st { source with skippedKeys := source.skippedKeys.insert keyId mk }
  | none =>
    exact evict_withBankOf st
      { source with
        skippedKeys := source.skippedKeys.insert keyId mk
        skippedKeyOrder := source.skippedKeyOrder ++ [keyId] }

omit [Primitives S] in
theorem bankSkippedKey_frame (st : RatchetState S) (keyId : String) (mk : S) :
    bankSkippedKey st keyId mk = withBankOf st (bankSkippedKey st keyId mk) :=
  bankSkippedKey_withBankOf st st keyId mk

omit [Primitives S] in
def bankAll (st : RatchetState S) (entries : List (String × S)) : RatchetState S :=
  entries.foldl (fun s entry => bankSkippedKey s entry.1 entry.2) st

omit [Primitives S] in
theorem bankAll_withBankOf (st source : RatchetState S) (entries : List (String × S)) :
    bankAll (withBankOf st source) entries = withBankOf st (bankAll source entries) := by
  induction entries generalizing source with
  | nil => rfl
  | cons entry rest ih =>
    simp only [bankAll, List.foldl_cons] at ih ⊢
    rw [bankSkippedKey_withBankOf, ih]

omit [Primitives S] in
theorem bankAll_frame (st : RatchetState S) (entries : List (String × S)) :
    bankAll st entries = withBankOf st (bankAll st entries) :=
  bankAll_withBankOf st st entries

/-- The keys skipped on the chain of `dhr`, from number `start` on. -/
def skippedEntries (dhr : Bytes32) (ck : S) (start : Nat) : Nat → List (String × S)
  | 0 => []
  | count + 1 =>
    (skippedKeyId dhr (UInt32.ofNat start), messageKeyOf ck) ::
      skippedEntries dhr (chainStep ck) (start + 1) count

theorem skippedEntries_eq_map (dhr : Bytes32) (ck : S) (start count : Nat) :
    skippedEntries dhr (chainStep^[start] ck) start count =
      (List.range' start count).map fun n => (skippedKeyId dhr (UInt32.ofNat n), messageKeyAt ck n) := by
  induction count generalizing start with
  | zero => rfl
  | succ count ih =>
    have rest := ih (start + 1)
    rw [Function.iterate_succ_apply'] at rest
    unfold skippedEntries
    rw [rest, List.range'_succ, List.map_cons]
    rfl

/-- The state after skipping to `until_` on a chain at key `ck`. -/
def skipped (st : RatchetState S) (ck : S) (dhr : Bytes32) (until_ : UInt32) : RatchetState S :=
  let count := until_.toNat - st.receivingMsgNumber.toNat
  { bankAll st (skippedEntries dhr ck st.receivingMsgNumber.toNat count) with
    receivingMsgNumber := UInt32.ofNat (st.receivingMsgNumber.toNat + count)
    receivingChainKey := some (chainStep^[count] ck) }

theorem skipLoop_exec (dhr : Bytes32) (until_ : UInt32) (fuel : Nat) (ck : S) (st : RatchetState S)
    (inside : st.receivingMsgNumber.toNat + fuel ≤ until_.toNat) :
    (skipLoop dhr until_ fuel ck).exec st = (.ok (chainStep^[fuel] ck),
      { bankAll st (skippedEntries dhr ck st.receivingMsgNumber.toNat fuel) with
        receivingMsgNumber := UInt32.ofNat (st.receivingMsgNumber.toNat + fuel) }) := by
  induction fuel generalizing ck st with
  | zero =>
    simp only [skipLoop, Mut.exec_pure, skippedEntries, bankAll, List.foldl_nil, Nat.add_zero,
      UInt32.ofNat_toNat, Function.iterate_zero, id_eq]
  | succ fuel ih =>
    have limit := until_.toNat_lt
    have advanced : (st.receivingMsgNumber + 1).toNat = st.receivingMsgNumber.toNat + 1 :=
      toNat_succ (by omega)
    have more : st.receivingMsgNumber < until_ := UInt32.lt_iff_toNat_lt.mpr (by omega)
    unfold skipLoop
    rw [Mut.exec_bind_ok (Mut.exec_get st)]
    simp only [more, ↓reduceIte, kdfCk_eq]
    rw [Mut.exec_bind_ok (Mut.exec_lift_ok _ _ _)]
    dsimp only
    rw [Mut.exec_bind_ok (Mut.exec_modify _ _), Mut.exec_bind_ok (Mut.exec_modify _ _)]
    have keeps : (bankSkippedKey st (skippedKeyId dhr st.receivingMsgNumber) (messageKeyOf ck)).receivingMsgNumber =
        st.receivingMsgNumber := by
      rw [bankSkippedKey_frame]
      rfl
    generalize banked : bankSkippedKey st (skippedKeyId dhr st.receivingMsgNumber) (messageKeyOf ck) = next
      at keeps ⊢
    rw [ih]
    · dsimp only
      rw [keeps, advanced]
      have reframe := bankAll_withBankOf { next with receivingMsgNumber := st.receivingMsgNumber + 1 } next
        (skippedEntries dhr (chainStep ck) (st.receivingMsgNumber.toNat + 1) fuel)
      have count : st.receivingMsgNumber.toNat + 1 + fuel = st.receivingMsgNumber.toNat + (fuel + 1) := by omega
      have frame := bankAll_withBankOf next next
        (skippedEntries dhr (chainStep ck) (st.receivingMsgNumber.toNat + 1) fuel)
      simp only [skippedEntries, bankAll, List.foldl_cons, UInt32.ofNat_toNat, banked,
        Function.iterate_succ_apply] at reframe frame ⊢
      rw [count]
      unfold withBankOf at reframe frame
      rw [reframe, frame]
    · dsimp only
      rw [keeps, advanced]
      omega

theorem skipLoop_count (dhr : Bytes32) (until_ : UInt32) (ck : S) (st : RatchetState S) :
    (skipLoop dhr until_ (until_.toNat - st.receivingMsgNumber.toNat) ck).exec st =
      (.ok (chainStep^[until_.toNat - st.receivingMsgNumber.toNat] ck),
        { bankAll st (skippedEntries dhr ck st.receivingMsgNumber.toNat
            (until_.toNat - st.receivingMsgNumber.toNat)) with
          receivingMsgNumber := UInt32.ofNat
            (st.receivingMsgNumber.toNat + (until_.toNat - st.receivingMsgNumber.toNat)) }) := by
  by_cases behind : st.receivingMsgNumber.toNat ≤ until_.toNat
  · exact skipLoop_exec dhr until_ _ ck st (by omega)
  · have idle : until_.toNat - st.receivingMsgNumber.toNat = 0 := by omega
    have still := skipLoop_exec dhr st.receivingMsgNumber 0 ck st (by omega)
    rw [idle]
    simpa only [skipLoop] using still

/-- `st'` is what skipping to `until_` leaves of `st`, when it succeeds. -/
def Skips (st : RatchetState S) (until_ : UInt32) (st' : RatchetState S) : Prop :=
  (st.receivingChainKey = none ∧ st' = st) ∨
    ∃ ck, st.receivingChainKey = some ck ∧
      until_.toNat ≤ st.receivingMsgNumber.toNat + maxSkip.toNat ∧
      ((st.dhr = none ∧ st' = st) ∨ ∃ d, st.dhr = some d ∧ st' = skipped st ck d until_)

theorem skipMessageKeys_iff {st st' : RatchetState S} {until_ : UInt32} :
    (skipMessageKeys until_).exec st = (.ok (), st') ↔ Skips st until_ st' := by
  unfold skipMessageKeys Skips
  rw [Mut.exec_bind_ok (Mut.exec_get st)]
  cases receiving : st.receivingChainKey with
  | none => simp [eq_comm]
  | some ck =>
    by_cases far : st.receivingMsgNumber.saturatingAdd maxSkip < until_
    · have refused := saturatingAdd_lt.mp far
      simp only [far, ↓reduceIte]
      rw [Mut.exec_bind_error (Mut.exec_throw _ _)]
      constructor
      · intro h
        cases h
      · intro either
        rcases either with ⟨absent, _⟩ | ⟨ck', same, near, _⟩
        · cases absent
        · omega
    · have near : until_.toNat ≤ st.receivingMsgNumber.toNat + maxSkip.toNat :=
        Nat.le_of_not_lt fun excess => far (saturatingAdd_lt.mpr excess)
      simp only [far, ↓reduceIte]
      cases peer : st.dhr with
      | none => simp [near, eq_comm]
      | some d =>
        dsimp only
        rw [Mut.exec_bind_ok (skipLoop_count d until_ ck st), Mut.exec_modify]
        simp only [Prod.mk.injEq, true_and, reduceCtorEq, false_and, Option.some.injEq, exists_eq_left',
          false_or, near, skipped]
        exact eq_comm

def stepped (st : RatchetState S) (d : Bytes32) (rng : StepRandom S) : RatchetState S :=
  let dhOutRecv := x25519DeriveShared st.dhs.privBytes d rng.recvFallback
  let newRk := rootStep st.rootKey dhOutRecv
  let dhOutSend := x25519DeriveShared rng.freshPriv d rng.sendFallback
  { st with
    previousSendingChainLength := st.sendingMsgNumber
    sendingMsgNumber := 0
    receivingMsgNumber := 0
    retiredPeerDhKeys := retirePeerKey st d
    dhr := some d
    dhs := generateX25519 S rng.freshPriv
    rootKey := rootStep newRk dhOutSend
    receivingChainKey := some (chainStart st.rootKey dhOutRecv)
    sendingChainKey := some (chainStart newRk dhOutSend) }

theorem dhRatchetStep_exec (st : RatchetState S) (d : Bytes32) (rng : StepRandom S) :
    (dhRatchetStep d rng).exec st = (.ok (), stepped st d rng) := rfl

/-! ### Receiving -/

def received (st : RatchetState S) (ck : S) : RatchetState S :=
  { st with receivingChainKey := some (chainStep ck), receivingMsgNumber := st.receivingMsgNumber + 1 }

/-- The check that classifies a message without a banked key as a replay. -/
def IsReplay (st : RatchetState S) (d : Bytes32) (n : UInt32) : Prop :=
  d ∈ st.retiredPeerDhKeys ∨ (st.dhr = some d ∧ n < st.receivingMsgNumber)

instance (st : RatchetState S) (d : Bytes32) (n : UInt32) : Decidable (IsReplay st d n) :=
  inferInstanceAs (Decidable (_ ∨ _))

/-- `st'` is the state from which the key of a message under `d` is derived. -/
def Reaches (st : RatchetState S) (header : MessageHeader) (d : Bytes32) (rng : StepRandom S)
    (st' : RatchetState S) : Prop :=
  (st.dhr = some d ∧ Skips st header.n st') ∨
    (st.dhr ≠ some d ∧ ∃ mid, Skips st header.pn mid ∧ Skips (stepped mid d rng) header.n st')

theorem decryptOnChain_none {st : RatchetState S} (idle : st.receivingChainKey = none)
    (msg : EncryptedMessage) (ad : Bytes) :
    (decryptOnChain msg ad).exec st = (.error .noReceivingChain, st) := by
  unfold decryptOnChain
  rw [Mut.exec_bind_ok (Mut.exec_get st), idle]
  rfl

theorem decryptOnChain_some {st : RatchetState S} {ck : S} (receiving : st.receivingChainKey = some ck)
    (msg : EncryptedMessage) (ad : Bytes) :
    (decryptOnChain msg ad).exec st = (openMessage (messageKeyOf ck) msg ad, received st ck) := by
  unfold decryptOnChain openMessage
  rw [Mut.exec_bind_ok (Mut.exec_get st), receiving]
  dsimp only
  rw [kdfCk_eq, Mut.exec_bind_ok (Mut.exec_lift_ok _ _ _)]
  dsimp only
  rw [Mut.exec_bind_ok (Mut.exec_modify _ _), Mut.exec_bind_ok (Mut.exec_modify _ _)]
  cases encodeHeader msg.header with
  | error e => rfl
  | ok headerBytes =>
    cases decodeHex msg.ciphertext with
    | error e => rfl
    | ok ct =>
      cases decodeHex msg.nonce with
      | error e => rfl
      | ok nonce =>
        rw [Mut.exec_bind_ok (Mut.exec_ofExcept_ok _ _), Mut.exec_bind_ok (Mut.exec_ofExcept_ok _ _),
          Mut.exec_bind_ok (Mut.exec_ofExcept_ok _ _)]
        simp only [bind, Except.bind]
        cases aesGcmDecrypt (messageKeyOf ck) ct nonce (some (concat [ad, headerBytes])) with
        | error e => rfl
        | ok pt => rfl

theorem decryptOnChain_ok {st st' : RatchetState S} {msg : EncryptedMessage} {ad pt : Bytes} :
    (decryptOnChain msg ad).exec st = (.ok pt, st') ↔
      ∃ ck, st.receivingChainKey = some ck ∧ openMessage (messageKeyOf ck) msg ad = .ok pt ∧
        st' = received st ck := by
  cases receiving : st.receivingChainKey with
  | none =>
    rw [decryptOnChain_none receiving]
    simp
  | some ck =>
    rw [decryptOnChain_some receiving]
    simp [eq_comm]

theorem inner_unbanked {st : RatchetState S} {msg : EncryptedMessage} {ad : Bytes} {d : Bytes32}
    {rng : StepRandom S} (decoded : decode32 msg.header.dhPub = .ok d)
    (unbanked : st.skippedKeys.lookup (skippedKeyId d msg.header.n) = none) :
    (ratchetDecryptInner msg ad rng).exec st =
      if IsReplay st d msg.header.n then (.error (.replay msg.header.n), st)
      else if st.dhr ≠ some d then
        (do skipMessageKeys msg.header.pn; dhRatchetStep d rng
            skipMessageKeys msg.header.n; decryptOnChain msg ad :
          Mut (RatchetState S) RatchetError Bytes).exec st
      else (do skipMessageKeys msg.header.n; decryptOnChain msg ad :
        Mut (RatchetState S) RatchetError Bytes).exec st := by
  unfold ratchetDecryptInner
  rw [decoded, Mut.exec_bind_ok (Mut.exec_ofExcept_ok _ _), Mut.exec_bind_ok (trySkipped_none ad unbanked)]
  dsimp only
  rw [Mut.exec_bind_ok (Mut.exec_get st)]
  by_cases replay : d ∈ st.retiredPeerDhKeys ∨ (st.dhr = some d ∧ msg.header.n < st.receivingMsgNumber)
  · rw [if_pos replay, if_pos (show IsReplay st d msg.header.n from replay)]
    exact Mut.exec_bind_error (Mut.exec_throw _ _)
  · rw [if_neg replay, if_neg (show ¬IsReplay st d msg.header.n from replay)]
    split <;> rfl

theorem ratchetDecrypt_replay {st : RatchetState S} {msg : EncryptedMessage} {d : Bytes32}
    (decoded : decode32 msg.header.dhPub = .ok d)
    (unbanked : st.skippedKeys.lookup (skippedKeyId d msg.header.n) = none)
    (replay : IsReplay st d msg.header.n) (ad : Bytes) (rng : StepRandom S) :
    ratchetDecrypt st msg ad rng = (.error (.replay msg.header.n), st) := by
  apply Mut.transaction_error (t := st)
  rw [inner_unbanked decoded unbanked, if_pos replay]

/-- A rejected message leaves the state as it was. -/
theorem ratchetDecrypt_error {st st' : RatchetState S} {msg : EncryptedMessage} {ad : Bytes}
    {rng : StepRandom S} {e : RatchetError} (h : ratchetDecrypt st msg ad rng = (.error e, st')) : st' = st :=
  Mut.transaction_error_state h

theorem ratchetDecrypt_decodes {st st' : RatchetState S} {msg : EncryptedMessage} {ad pt : Bytes}
    {rng : StepRandom S} (accepted : ratchetDecrypt st msg ad rng = (.ok pt, st')) :
    ∃ d, decode32 msg.header.dhPub = .ok d := by
  cases decoded : decode32 msg.header.dhPub with
  | ok d => exact ⟨d, rfl⟩
  | error e =>
    have failed : (ratchetDecryptInner msg ad rng).exec st = (.error e, st) := by
      unfold ratchetDecryptInner
      rw [decoded]
      exact Mut.exec_bind_error (Mut.exec_ofExcept_error _ _)
    rw [ratchetDecrypt, Mut.transaction_error failed] at accepted
    cases accepted

/-- When a message is accepted, and the state it leaves. -/
theorem ratchetDecrypt_ok_iff {st st' : RatchetState S} {msg : EncryptedMessage} {ad pt : Bytes}
    {d : Bytes32} {rng : StepRandom S} (decoded : decode32 msg.header.dhPub = .ok d) :
    ratchetDecrypt st msg ad rng = (.ok pt, st') ↔
      (∃ mk, st.skippedKeys.lookup (skippedKeyId d msg.header.n) = some mk ∧
        openMessage mk msg ad = .ok pt ∧ st' = consumed st (skippedKeyId d msg.header.n)) ∨
      (st.skippedKeys.lookup (skippedKeyId d msg.header.n) = none ∧ ¬IsReplay st d msg.header.n ∧
        ∃ mid ck, Reaches st msg.header d rng mid ∧ mid.receivingChainKey = some ck ∧
          openMessage (messageKeyOf ck) msg ad = .ok pt ∧ st' = received mid ck) := by
  unfold ratchetDecrypt
  rw [Mut.transaction_ok]
  cases banked : st.skippedKeys.lookup (skippedKeyId d msg.header.n) with
  | some mk =>
    unfold ratchetDecryptInner
    rw [decoded, Mut.exec_bind_ok (Mut.exec_ofExcept_ok _ _), Mut.exec_bind, trySkipped_some ad banked]
    cases opened : openMessage mk msg ad with
    | ok plain => simp [opened, eq_comm]
    | error e => simp [opened]
  | none =>
    rw [inner_unbanked decoded banked]
    unfold Reaches
    by_cases replay : IsReplay st d msg.header.n
    · simp [replay]
    · rw [if_neg replay]
      by_cases same : st.dhr = some d
      · simp only [same, ne_eq, not_true_eq_false, ↓reduceIte, Mut.bind_ok_iff, decryptOnChain_ok]
        constructor
        · intro given
          obtain ⟨_, mid, skips, ck, receiving, opened, rfl⟩ := given
          exact Or.inr ⟨trivial, replay, mid, ck, Or.inl ⟨trivial, skipMessageKeys_iff.mp skips⟩,
            receiving, opened, rfl⟩
        · intro either
          rcases either with ⟨_, absurd, _⟩ | ⟨_, _, mid, ck, ⟨_, skips⟩ | ⟨different, _⟩, receiving, opened, rfl⟩
          · cases absurd
          · exact ⟨_, mid, skipMessageKeys_iff.mpr skips, ck, receiving, opened, rfl⟩
          · exact different.elim
      · simp only [same, ne_eq, not_false_eq_true, ↓reduceIte, Mut.bind_ok_iff, decryptOnChain_ok,
          dhRatchetStep_exec, Prod.mk.injEq]
        constructor
        · intro given
          obtain ⟨_, before, skips, _, _, ⟨_, rfl⟩, _, mid, skips', ck, receiving, opened, rfl⟩ := given
          exact Or.inr ⟨trivial, replay, mid, ck,
            Or.inr ⟨trivial, before, skipMessageKeys_iff.mp skips, skipMessageKeys_iff.mp skips'⟩,
            receiving, opened, rfl⟩
        · rintro (⟨_, absurd, _⟩ | ⟨_, _, mid, ck, ⟨absurd, _⟩ | ⟨_, before, skips, skips'⟩, receiving,
            opened, rfl⟩)
          · cases absurd
          · exact absurd.elim
          · exact ⟨_, before, skipMessageKeys_iff.mpr skips, (), _, ⟨trivial, rfl⟩, _, mid,
              skipMessageKeys_iff.mpr skips', ck, receiving, opened, rfl⟩

end
end TrinoCore
