import TrinoCore.Ratchet.Receiving

/-!
The invariant of a session: both states are positions on one key schedule.

The schedule is not part of the states, so a session satisfies the invariant when some `Timeline`
explains it. Sending lengthens a chain of the timeline, a DH step adds a key to it.
-/

namespace TrinoCore

variable {S : Type}

namespace Entry

def usedKey : Entry S → Option S
  | encrypted _ key _ _ _ => key
  | delivered _ _ _ _ => none

def takenBy (p : Party) : Entry S → Option Taken
  | delivered q msg ad (.ok pt) => if q = p then some (msg, ad, pt) else none
  | _ => none

end Entry

namespace Session

def usedKeys (s : Session S) : List S := s.history.filterMap Entry.usedKey

def taken (s : Session S) (p : Party) : List Taken := s.history.filterMap (Entry.takenBy p)

theorem mem_taken {s : Session S} {p : Party} {msg : EncryptedMessage} {ad pt : Bytes} :
    (msg, ad, pt) ∈ s.taken p ↔ Entry.delivered p msg ad (.ok pt) ∈ s.history := by
  unfold taken
  rw [List.mem_filterMap]
  constructor
  · intro given
    obtain ⟨entry, present, takes⟩ := given
    unfold Entry.takenBy at takes
    split at takes
    · split at takes
      · rename_i same
        obtain ⟨rfl, rfl, rfl⟩ := Option.some.inj takes
        exact same ▸ present
      · cases takes
    · cases takes
  · intro present
    exact ⟨_, present, if_pos rfl⟩

end Session

/-- The same header, whatever the spelling of its key. -/
def SameHeader (a b : MessageHeader) : Prop :=
  ∃ d, decode32 a.dhPub = .ok d ∧ decode32 b.dhPub = .ok d ∧ a.pn = b.pn ∧ a.n = b.n

/-- Entry `k` of the history accepts a message that the peer had sent. -/
def MatchedBefore (s : Session S) (k : Nat) (p : Party) (msg : EncryptedMessage) (ad pt : Bytes) : Prop :=
  ∃ i < k, ∃ key sent, s.history[i]? = some (.encrypted p.peer key pt ad (.ok sent)) ∧
    SameHeader sent.header msg.header

theorem matched_append {s : Session S} {entry : Entry S} {k : Nat} {p : Party} {msg : EncryptedMessage} {ad pt : Bytes}
    (matched : MatchedBefore s k p msg ad pt) {s' : Session S} (grown : s'.history = s.history ++ [entry]) :
    MatchedBefore s' k p msg ad pt := by
  obtain ⟨i, before, key, sent, found, header⟩ := matched
  refine ⟨i, before, key, sent, ?_, header⟩
  rw [grown, List.getElem?_append_left (List.getElem?_eq_some_iff.mp found).1]
  exact found

theorem getElem?_grown {s s' : Session S} {entry other : Entry S} {k : Nat}
    (grown : s'.history = s.history ++ [entry]) (found : s'.history[k]? = some other) :
    s.history[k]? = some other ∨ (k = s.history.length ∧ other = entry) := by
  rw [grown] at found
  rcases Nat.lt_trichotomy k s.history.length with old | last | beyond
  · rw [List.getElem?_append_left old] at found
    exact Or.inl found
  · subst k
    rw [List.getElem?_concat_length] at found
    exact Or.inr ⟨rfl, (Option.some.inj found).symm⟩
  · rw [List.getElem?_eq_none (by rw [List.length_append, List.length_singleton]; omega)] at found
    cases found

variable [Primitives S]

/-- The state of a party that holds DH key `c`. -/
structure Tracks (T : Timeline S) (c : Nat) (st : RatchetState S) : Prop where
  dhs : st.dhs = generateX25519 S (T.priv c)
  root : st.rootKey = T.root c
  dhr : st.dhr = if c = 0 then none else some (T.pub (c - 1))
  sending : st.sendingChainKey = if c = 0 then none else some (chainStep^[T.count c] (T.chain c))
  receiving : st.receivingChainKey =
    if c < 2 then none else some (chainStep^[st.receivingMsgNumber.toNat] (T.chain (c - 1)))
  sent : st.sendingMsgNumber.toNat = T.count c
  previous : st.previousSendingChainLength.toNat = T.count (c - 2)
  received : st.receivingMsgNumber.toNat ≤ T.count (c - 1)

/-- The peer keys a party has seen, the last one being in use. -/
structure Peers (T : Timeline S) (c : Nat) (st : RatchetState S) (peerKeys : List Bytes32) : Prop where
  last : peerKeys.getLast? = st.dhr
  retired : st.retiredPeerDhKeys = BoundedQueue.trim maxRetiredDhKeys peerKeys.dropLast
  nodup : peerKeys.Nodup
  known : ∀ d ∈ peerKeys, ∃ i < c, d = T.pub i

def Timeline.header (T : Timeline S) (j n : Nat) : MessageHeader :=
  { dhPub := Hex.encode (T.pub j).toList
    pn := UInt32.ofNat (T.count (j - 2))
    n := UInt32.ofNat n }

def Timeline.sealAd (T : Timeline S) (j n : Nat) (ad : Bytes) : Bytes :=
  headerAd ad (T.pub j) (UInt32.ofNat (T.count (j - 2))) (UInt32.ofNat n)

/-- `msg` is number `n` under key `j`. -/
def Timeline.IsMessage (T : Timeline S) (j n : Nat) (pt ad : Bytes) (msg : EncryptedMessage) : Prop :=
  ∃ (nonce : Nonce) (ct : Bytes), msg = ⟨T.header j n, Hex.encode nonce.toList, Hex.encode ct⟩ ∧
    aeadSeal (T.messageKey j n) nonce pt (T.sealAd j n ad) = some ct

def SentAs (T : Timeline S) (p : Party) (key : Option S) (pt ad : Bytes)
    (result : Except RatchetError EncryptedMessage) : Prop :=
  (key = none ∧ ∃ e, result = .error e) ∨
    ∃ j n, j % 2 = p.parity ∧ 1 ≤ j ∧ j ≤ T.top ∧ n < T.count j ∧ key = some (T.messageKey j n) ∧
      ∀ msg, result = .ok msg → T.IsMessage j n pt ad msg

/-- Everything the invariant says about one party. -/
structure Follows (T : Timeline S) (s : Session S) (p : Party) : Prop where
  tracks : Tracks T (T.level p) (s.state p)
  peers : Peers T (T.level p) (s.state p) (s.peerKeys p)
  receives : Receives T (T.level p) (s.state p) (s.taken p)
  complete : s.evicted p = ∅ → Complete T (T.level p) (s.state p) (s.taken p)

structure Inv (masterSecret : S) (T : Timeline S) (s : Session S) : Prop where
  master : T.master = masterSecret
  keys : ∀ j ≤ T.top, T.pub j ∈ s.dhKeys
  party : ∀ p, Follows T s p
  sent : ∀ p key pt ad result, Entry.encrypted p key pt ad result ∈ s.history → SentAs T p key pt ad result
  fresh : s.usedKeys.Nodup
  matched : ∀ k p msg ad pt, s.history[k]? = some (.delivered p msg ad (.ok pt)) → MatchedBefore s k p msg ad pt

section Later
variable {T T' : Timeline S} (after : T.Later T') {c : Nat} (known : c ≤ T.top) {st : RatchetState S}
include after known

theorem Tracks.later (tracks : Tracks T c st) (own : T'.count c = T.count c) : Tracks T' c st where
  dhs := by rw [after.keys c known]; exact tracks.dhs
  root := by rw [after.root known]; exact tracks.root
  dhr := by rw [after.pub (by omega)]; exact tracks.dhr
  sending := by rw [after.chain known, own]; exact tracks.sending
  receiving := by rw [after.chain (by omega)]; exact tracks.receiving
  sent := by rw [own]; exact tracks.sent
  previous := by rw [after.previous known]; exact tracks.previous
  received := tracks.received.trans (after.grows (c - 1))

theorem Peers.later {peerKeys : List Bytes32} (peers : Peers T c st peerKeys) : Peers T' c st peerKeys := by
  refine ⟨peers.last, peers.retired, peers.nodup, fun d present => ?_⟩
  obtain ⟨i, below, same⟩ := peers.known d present
  exact ⟨i, below, by rw [after.pub (by omega)]; exact same⟩

omit known in
theorem Timeline.Later.isMessage {j n : Nat} {pt ad : Bytes} {msg : EncryptedMessage} (old : j ≤ T.top)
    (message : T.IsMessage j n pt ad msg) : T'.IsMessage j n pt ad msg := by
  unfold Timeline.IsMessage Timeline.header Timeline.sealAd at *
  rw [after.messageKey old, after.pub old, after.previous old]
  exact message

omit known in
theorem SentAs.later {p : Party} {key : Option S} {pt ad : Bytes} {result : Except RatchetError EncryptedMessage}
    (sent : SentAs T p key pt ad result) : SentAs T' p key pt ad result := by
  rcases sent with failed | ⟨j, n, parity, positive, inside, below, same, message⟩
  · exact Or.inl failed
  · refine Or.inr ⟨j, n, parity, positive, inside.trans after.top, below.trans_le (after.grows j), ?_, ?_⟩
    · rw [after.messageKey inside]
      exact same
    · exact fun msg ok => after.isMessage inside (message msg ok)

end Later

def Timeline.begin (masterSecret : S) (spkPriv fresh : Bytes32)
    (new : x25519Pub S fresh ≠ x25519Pub S spkPriv) : Timeline S where
  master := masterSecret
  priv j := if j = 0 then spkPriv else fresh
  top := 1
  count _ := 0
  top_pos := le_refl 1
  distinct := by
    intro i hi j hj same
    obtain rfl | rfl : i = 0 ∨ i = 1 := by omega
    · obtain rfl | rfl : j = 0 ∨ j = 1 := by omega
      · rfl
      · exact (new same.symm).elim
    · obtain rfl | rfl : j = 0 ∨ j = 1 := by omega
      · exact (new same).elim
      · rfl
  count_zero := rfl
  count_beyond _ _ := rfl
  count_lt _ := by decide

theorem receives_nothing {T : Timeline S} {c : Nat} {st : RatchetState S} (noKeys : st.skippedKeys = ∅)
    (noOrder : st.skippedKeyOrder = []) : Receives T c st [] := by
  refine ⟨⟨?_, ?_⟩, ?_, ?_, ?_, List.nodup_nil⟩
  · rw [noOrder]
    exact List.nodup_nil
  · intro keyId ordered
    rw [noOrder] at ordered
    cases ordered
  · rw [noKeys, Finmap.keys_empty, Finset.card_empty]
    exact Nat.zero_le _
  · intro keyId mk found
    rw [noKeys] at found
    exact (Finmap.notMem_empty (Finmap.mem_of_lookup_eq_some found)).elim
  · intro msg ad pt present
    cases present

theorem complete_nothing {T : Timeline S} {c : Nat} {st : RatchetState S} (none_received : st.receivingMsgNumber = 0)
    (young : c < 2) : Complete T c st [] := by
  intro j n passed
  obtain ⟨_, ⟨old, below⟩ | ⟨_, below⟩⟩ := passed
  · have first : j = 0 := by omega
    rw [first, T.count_zero] at below
    omega
  · rw [none_received] at below
    exact absurd below (Nat.not_lt_zero _)

theorem start_inv (ideal : Ideal S) {masterSecret : S} {spkPriv : Bytes32} {rng : StepRandom S}
    {initiator : RatchetState S}
    (made : initInitiator masterSecret (generateX25519 S spkPriv).pubBytes rng = .ok initiator)
    (fresh : x25519Pub S rng.freshPriv ≠ x25519Pub S spkPriv) :
    Inv masterSecret (Timeline.begin masterSecret spkPriv rng.freshPriv fresh)
      (Session.start initiator (initResponder masterSecret (generateX25519 S spkPriv))) := by
  simp only [initInitiator, kdfRk_eq, Except.ok.injEq, generateX25519,
    x25519DeriveShared_honest ideal.toCorrect] at made
  subst initiator
  refine ⟨rfl, ?_, ?_, ?_, List.nodup_nil, ?_⟩
  · intro j inside
    obtain rfl | rfl : j = 0 ∨ j = 1 := by
      change j ≤ 1 at inside
      omega
    · exact List.mem_cons_self
    · exact List.mem_cons_of_mem _ List.mem_cons_self
  · intro p
    cases p with
    | initiator =>
      refine ⟨⟨rfl, rfl, rfl, rfl, rfl, rfl, rfl, le_refl 0⟩, ?_, receives_nothing rfl rfl,
        fun _ => complete_nothing rfl (show 1 < 2 by decide)⟩
      refine ⟨rfl, rfl, List.nodup_singleton _, fun d present => ⟨0, Nat.zero_lt_one, ?_⟩⟩
      exact List.mem_singleton.mp present
    | responder =>
      refine ⟨⟨rfl, rfl, rfl, rfl, rfl, rfl, rfl, le_refl 0⟩, ?_, receives_nothing rfl rfl,
        fun _ => complete_nothing rfl (show 0 < 2 by decide)⟩
      exact ⟨rfl, rfl, List.nodup_nil, fun d present => by cases present⟩
  · intro p key pt ad result present
    cases present
  · intro k p msg ad pt present
    cases present

/-! ### One call -/

/-- What a call of party `p` has to leave behind: the other party's side of the invariant and the
history up to its last entry come from before. -/
theorem Inv.change {masterSecret : S} {T T' : Timeline S} {s s' : Session S} (inv : Inv masterSecret T s) {p : Party}
    {entry : Entry S} (later : T.Later T') (grown : s'.history = s.history ++ [entry])
    (state : s'.state p.peer = s.state p.peer) (peerKeys : s'.peerKeys p.peer = s.peerKeys p.peer)
    (evicted : s'.evicted p.peer = s.evicted p.peer) (level : T'.level p.peer = T.level p.peer)
    (count : T'.count (T.level p.peer) = T.count (T.level p.peer)) (other : entry.takenBy p.peer = none)
    (keys : ∀ j ≤ T'.top, T'.pub j ∈ s'.dhKeys) (own : Follows T' s' p)
    (sent : ∀ q key pt ad result, entry = .encrypted q key pt ad result → SentAs T' q key pt ad result)
    (fresh : ∀ key, entry.usedKey = some key → key ∉ s.usedKeys)
    (matched : ∀ q msg ad pt, entry = .delivered q msg ad (.ok pt) →
      MatchedBefore s' s.history.length q msg ad pt) : Inv masterSecret T' s' := by
  have known := T.level_le p.peer
  refine ⟨later.master.trans inv.master, keys, ?_, ?_, ?_, ?_⟩
  · intro q
    rcases p.eq_or_eq_peer q with rfl | rfl
    · exact own
    · have before := inv.party p.peer
      have taken : s'.taken p.peer = s.taken p.peer := by
        rw [Session.taken, grown, List.filterMap_append, List.filterMap_cons, other, List.filterMap_nil,
          List.append_nil, Session.taken]
      refine ⟨?_, ?_, ?_, ?_⟩
      · rw [level, state]
        exact before.tracks.later later known count
      · rw [level, state, peerKeys]
        exact before.peers.later later known
      · rw [level, state, taken]
        exact before.receives.later later known
      · rw [level, state, taken, evicted]
        exact fun never => (before.complete never).later later known
  · intro q key pt ad result present
    rw [grown] at present
    rcases List.mem_append.mp present with old | last
    · exact (inv.sent q key pt ad result old).later later
    · exact sent q key pt ad result (List.mem_singleton.mp last).symm
  · unfold Session.usedKeys
    rw [grown, List.filterMap_append]
    refine inv.fresh.append ?_ ?_
    · cases used : entry.usedKey with
      | none => simp [used]
      | some key => simp [used]
    · intro key old new
      obtain ⟨only, single, used⟩ := List.mem_filterMap.mp new
      obtain rfl := List.mem_singleton.mp single
      exact fresh key used old
  · intro k q msg ad pt found
    rcases getElem?_grown grown found with old | ⟨last, same⟩
    · exact matched_append (inv.matched k q msg ad pt old) grown
    · subst k
      exact matched q msg ad pt same.symm

end TrinoCore
