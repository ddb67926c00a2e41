import TrinoCore.Ratchet.Stepping

namespace TrinoCore

variable {S : Type} [Primitives S]

theorem accepted_sessionKey {masterSecret : S} {T : Timeline S} {s : Session S} (inv : Inv masterSecret T s)
    {p : Party} {msg : EncryptedMessage} {ad pt : Bytes} {rng : StepRandom S} {next : RatchetState S}
    (outcome : ratchetDecrypt (s.state p) msg ad rng = (.ok pt, next)) :
    ∃ mk, SessionKey masterSecret mk ∧ openMessage mk msg ad = .ok pt := by
  have own := inv.party p
  have tracks := own.tracks
  rw [← inv.master]
  obtain ⟨d, decoded⟩ := ratchetDecrypt_decodes outcome
  rcases (ratchetDecrypt_ok_iff decoded).mp outcome with
    ⟨mk, banked, opens, _⟩ | ⟨_, _, mid, ck, reaches, receiving, opens, _⟩
  · obtain ⟨j, n, _, _, rfl⟩ := own.receives.banked _ mk banked
    exact ⟨_, T.messageKey_sessionKey j n, opens⟩
  · refine ⟨messageKeyOf ck, .message ?_, opens⟩
    rcases reaches with ⟨current, skips⟩ | ⟨_, before, skips, skips'⟩
    · have chain := tracks.receiving
      by_cases young : T.level p < 2
      · rw [if_pos young] at chain
        rw [skips_idle chain skips, chain] at receiving
        cases receiving
      · rw [if_neg young] at chain
        have moved := (skips_moves skips chain current).2.2
        obtain rfl := Option.some.inj (receiving.symm.trans moved)
        exact ((T.chain_sessionKey _).iterate _).iterate _
    · have moved := (skips_moves skips' rfl rfl).2.2
      obtain rfl := Option.some.inj (receiving.symm.trans moved)
      have sameRoot : before.rootKey = (s.state p).rootKey := (congrArg RatchetState.rootKey (skips_frame skips) :)
      rw [sameRoot, tracks.root]
      exact SessionKey.iterate (.chain _ (T.root_sessionKey _)) _

/-- Whatever an attacker offers is rejected or carries a ciphertext of the network. -/
theorem makeable_seen (ideal : Ideal S) {masterSecret : S} {T : Timeline S} {s : Session S}
    (inv : Inv masterSecret T s) (attacker : Attacker masterSecret) {p : Party} {msg : EncryptedMessage} (ad : Bytes)
    (rng : StepRandom S) (made : Makeable attacker s p msg) :
    s.Rejects p msg ad rng ∨ ∀ ct, Hex.decode msg.ciphertext = some ct → s.OnWire ct := by
  rcases outcome : ratchetDecrypt (s.state p) msg ad rng with ⟨result, next⟩
  cases result with
  | error e => exact Or.inl ⟨e, congrArg Prod.fst outcome⟩
  | ok pt =>
    refine Or.inr fun ct ciphertext => ?_
    obtain ⟨mk, isKey, opens⟩ := accepted_sessionKey inv outcome
    obtain ⟨d, decoded⟩ := ratchetDecrypt_decodes outcome
    obtain ⟨ct', nonce, ciphertext', _, opened⟩ := (openMessage_ok decoded).mp opens
    obtain rfl := Option.some.inj (ciphertext'.symm.trans ciphertext)
    rcases made ct' ciphertext with wire | forged
    · exact wire
    · exact (isKey.not_deducible ideal attacker (forged mk nonce _ pt opened)).elim

theorem reachable_inv (ideal : Ideal S) {masterSecret : S} (attacker : Attacker masterSecret) {s : Session S}
    (reached : Reachable (Makeable attacker) masterSecret s) : ∃ T, Inv masterSecret T s := by
  induction reached with
  | start made fresh => exact ⟨_, start_inv ideal made fresh⟩
  | encrypt _ p pt ad nonce room ih =>
    obtain ⟨T, inv⟩ := ih
    exact encrypt_inv ideal inv p pt ad nonce room
  | decrypt _ p msg ad rng fresh offered ih =>
    obtain ⟨T, inv⟩ := ih
    apply decrypt_inv ideal inv p msg ad rng fresh
    rcases offered with made | rejected
    · exact makeable_seen ideal inv attacker ad rng made
    · exact Or.inl rejected

theorem Reachable.mono {may may' : Session S → Party → EncryptedMessage → Prop} {masterSecret : S} {s : Session S}
    (weaker : ∀ s p msg, may s p msg → may' s p msg) (reached : Reachable may masterSecret s) :
    Reachable may' masterSecret s := by
  induction reached with
  | start made fresh => exact .start made fresh
  | encrypt _ p pt ad nonce room ih => exact .encrypt ih p pt ad nonce room
  | decrypt _ p msg ad rng fresh offered ih => exact .decrypt ih p msg ad rng fresh (offered.imp_left (weaker _ p msg))

def Attacker.none (masterSecret : S) : Attacker masterSecret where
  known _ := False
  noMaster deduced := by
    induction deduced with
    | known given => exact given
    | hkdf _ _ _ _ _ salted => exact salted
  noSessionKey _ given := given.elim

theorem genuine_makeable {masterSecret : S} (attacker : Attacker masterSecret) (s : Session S) (p : Party)
    (msg : EncryptedMessage) (genuine : Genuine s p msg) : Makeable attacker s p msg :=
  fun _ ciphertext => Or.inl ⟨p.peer, msg, genuine, ciphertext⟩

theorem genuine_inv (ideal : Ideal S) {masterSecret : S} {s : Session S}
    (reached : Reachable Genuine masterSecret s) : ∃ T, Inv masterSecret T s :=
  reachable_inv ideal (Attacker.none masterSecret) (reached.mono (genuine_makeable _))

end TrinoCore
