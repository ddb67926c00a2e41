import TrinoCore.Ratchet.Invariant

namespace TrinoCore

variable {S : Type} [Primitives S]

theorem sendingKey_some {st : RatchetState S} {ck : S} (sending : st.sendingChainKey = some ck) :
    Session.sendingKey st = some (messageKeyOf ck) := by
  unfold Session.sendingKey
  rw [sending]
  rfl

theorem sendingKey_none {st : RatchetState S} (idle : st.sendingChainKey = none) :
    Session.sendingKey st = none := by
  unfold Session.sendingKey
  rw [idle]
  rfl

/-- A party without a sending chain only records the failed call. -/
theorem encrypt_idle_inv {masterSecret : S} {T : Timeline S} {s : Session S} (inv : Inv masterSecret T s)
    {p : Party} (idle : (s.state p).sendingChainKey = none) (pt ad : Bytes) (nonce : Nonce) :
    Inv masterSecret T (s.encrypt p pt ad nonce) := by
  have call : s.encrypt p pt ad nonce =
      { s with history := s.history ++ [.encrypted p none pt ad (.error .noSendingChain)] } := by
    unfold Session.encrypt
    rw [ratchetEncrypt_none idle, sendingKey_none idle]
    dsimp only
    rw [Function.update_eq_self]
  have own := inv.party p
  have taken : (s.encrypt p pt ad nonce).taken p = s.taken p := by
    rw [call, Session.taken, List.filterMap_append]
    exact List.append_nil _
  refine inv.change (p := p) (Timeline.Later.refl T) (congrArg Session.history call) (congrFun (congrArg Session.state call) _)
    (congrFun (congrArg Session.peerKeys call) _) (congrFun (congrArg Session.evicted call) _) rfl rfl rfl ?_ ?_ ?_ ?_ ?_
  · rw [call]
    exact inv.keys
  · refine ⟨?_, ?_, ?_, ?_⟩
    · rw [call]
      exact own.tracks
    · rw [call]
      exact own.peers
    · rw [taken, call]
      exact own.receives
    · rw [taken, call]
      exact own.complete
  · intro q key pt' ad' result same
    cases same
    exact Or.inl ⟨rfl, _, rfl⟩
  · intro key used
    cases used
  · intro q msg ad' pt' same
    cases same

theorem tracks_afterSend {T : Timeline S} {c : Nat} {st : RatchetState S} (tracks : Tracks T c st) (positive : 1 ≤ c)
    (inside : c ≤ T.top) (room : T.count c + 1 < 2 ^ 32) (later : T.Later (T.send c positive inside room)) :
    Tracks (T.send c positive inside room) c (afterSend st (chainStep^[T.count c] (T.chain c))) := by
  have more : (T.send c positive inside room).count c = T.count c + 1 := Function.update_self _ _ _
  have earlier : ∀ j, j ≠ c → (T.send c positive inside room).count j = T.count j :=
    fun j different => Function.update_of_ne different _ _
  have active : c ≠ 0 := by omega
  refine ⟨tracks.dhs, ?_, tracks.dhr, ?_, ?_, ?_, ?_, ?_⟩
  · rw [later.root inside]
    exact tracks.root
  · rw [more, if_neg active, Function.iterate_succ_apply', later.chain inside]
    rfl
  · rw [later.chain (by omega)]
    exact tracks.receiving
  · have number := tracks.sent
    rw [more, ← number]
    exact toNat_succ (by rw [number]; exact room)
  · rw [earlier (c - 2) (by omega)]
    exact tracks.previous
  · rw [earlier (c - 1) (by omega)]
    exact tracks.received

theorem encrypt_message {T : Timeline S} {c : Nat} {st : RatchetState S} (tracks : Tracks T c st) {pt ad : Bytes}
    {nonce : Nonce} {msg : EncryptedMessage} {next : RatchetState S} (positive : 1 ≤ c)
    (sent : (ratchetEncrypt pt ad nonce).exec st = (.ok msg, next)) : T.IsMessage c (T.count c) pt ad msg := by
  have active : c ≠ 0 := by omega
  have sending := tracks.sending
  rw [if_neg active] at sending
  have key : st.dhs.pubBytes = T.pub c := by
    rw [tracks.dhs]
    rfl
  have number : st.sendingMsgNumber = UInt32.ofNat (T.count c) := by rw [← tracks.sent, UInt32.ofNat_toNat]
  have previous : st.previousSendingChainLength = UInt32.ofNat (T.count (c - 2)) := by
    rw [← tracks.previous, UInt32.ofNat_toNat]
  rw [ratchetEncrypt_some sending, key, number, previous] at sent
  have result := congrArg Prod.fst sent
  dsimp only at result
  split at result
  · rename_i ct sealed
    refine ⟨nonce, ct, ?_, sealed⟩
    have header : nextHeader st = T.header c (T.count c) := by
      unfold nextHeader
      rw [key, number, previous, Timeline.header]
    rw [← header]
    exact (Except.ok.inj result).symm
  · cases result

theorem encrypt_inv (ideal : Ideal S) {masterSecret : S} {T : Timeline S} {s : Session S} (inv : Inv masterSecret T s)
    (p : Party) (pt ad : Bytes) (nonce : Nonce) (room : (s.state p).sendingMsgNumber.toNat + 1 < 2 ^ 32) :
    ∃ T', Inv masterSecret T' (s.encrypt p pt ad nonce) := by
  have own := inv.party p
  have known := T.level_le p
  have neighbours := T.level_peer p
  by_cases first : T.level p = 0
  · refine ⟨T, encrypt_idle_inv inv ?_ pt ad nonce⟩
    rw [own.tracks.sending, if_pos first]
  · rw [own.tracks.sent] at room
    have sending := own.tracks.sending
    rw [if_neg first] at sending
    rcases outcome : (ratchetEncrypt pt ad nonce).exec (s.state p) with ⟨result, next⟩
    have advanced : next = afterSend (s.state p) (chainStep^[T.count (T.level p)] (T.chain (T.level p))) := by
      rw [ratchetEncrypt_some sending] at outcome
      exact (congrArg Prod.snd outcome).symm
    have call : s.encrypt p pt ad nonce =
        { s with
          state := Function.update s.state p next
          history := s.history ++ [.encrypted p (some (T.messageKey (T.level p) (T.count (T.level p)))) pt ad result] } := by
      unfold Session.encrypt
      rw [outcome, sendingKey_some sending]
      rfl
    have taken : (s.encrypt p pt ad nonce).taken p = s.taken p := by
      rw [call, Session.taken, List.filterMap_append]
      exact List.append_nil _
    have positive : 1 ≤ T.level p := by omega
    have later : T.Later (T.send (T.level p) positive known room) := Timeline.later_send (by omega)
    have state : (s.encrypt p pt ad nonce).state p = next := by
      rw [call]
      exact Function.update_self _ _ _
    have receives := own.receives.later later known
    refine ⟨T.send (T.level p) positive known room, inv.change (p := p) later (congrArg Session.history call)
      ?_ (congrFun (congrArg Session.peerKeys call) _) (congrFun (congrArg Session.evicted call) _) rfl ?_ rfl ?_ ?_ ?_ ?_ ?_⟩
    · rw [call]
      exact Function.update_of_ne p.peer_ne _ _
    · exact Function.update_of_ne (by omega) _ _
    · rw [call]
      exact inv.keys
    · refine ⟨?_, ?_, ?_, ?_⟩
      · rw [state, advanced]
        exact tracks_afterSend own.tracks positive known room later
      · have peers := own.peers.later later known
        rw [state, advanced, call]
        exact ⟨peers.last, peers.retired, peers.nodup, peers.known⟩
      · rw [state, advanced, taken]
        exact ⟨⟨receives.wellFormed.nodup, receives.wellFormed.banked⟩, receives.within, receives.banked,
          receives.read, receives.once⟩
      · rw [state, advanced, taken, call]
        exact fun never => (own.complete never).later later known
    · intro q key pt' ad' result' same
      cases same
      have more : (T.send (T.level p) positive known room).count (T.level p) = T.count (T.level p) + 1 :=
        Function.update_self _ _ _
      refine Or.inr ⟨T.level p, T.count (T.level p), T.level_parity p, positive, known, by omega,
        congrArg some (later.messageKey known _).symm, ?_⟩
      rintro msg rfl
      exact later.isMessage known (encrypt_message own.tracks positive outcome)
    · intro key used present
      obtain rfl := Option.some.inj used
      -- every key used before is of a smaller number or of another chain
      obtain ⟨entry, recorded, same⟩ := List.mem_filterMap.mp present
      cases entry with
      | delivered q msg ad' result' => cases same
      | encrypted q key pt' ad' result' =>
        cases same
        rcases inv.sent _ _ _ _ _ recorded with ⟨absent, _⟩ | ⟨j, n, _, later', _, below, equal, _⟩
        · cases absent
        · obtain ⟨rfl, rfl⟩ := Timeline.messageKey_injective ideal positive later' (Option.some.inj equal)
          omega
    · intro q msg ad' pt' same
      cases same

end TrinoCore
