import TrinoCore.Ratchet.Schedule
import TrinoCore.Ratchet.Fifo

/-!
Where the keys of a session are on its key schedule, whatever the network delivers and however many
messages a chain carries. A root key is at the level that counts the steps from the master secret to
it, a chain is numbered by the level its first step leads to, and a message key by its chain and its
place there.
-/

namespace TrinoCore

variable {S : Type} [Primitives S]

inductive RootAt (masterSecret : S) : Nat → S → Prop
  | master : RootAt masterSecret 0 masterSecret
  | step {level : Nat} {rk : S} (dhOut : S) (known : RootAt masterSecret level rk) :
      RootAt masterSecret (level + 1) (rootStep rk dhOut)

def ChainAt (masterSecret : S) (j n : Nat) (ck : S) : Prop :=
  ∃ i rk dhOut, j = i + 1 ∧ RootAt masterSecret i rk ∧ ck = chainStep^[n] (chainStart rk dhOut)

def KeyAt (masterSecret : S) (j n : Nat) (key : S) : Prop :=
  ∃ ck, ChainAt masterSecret j n ck ∧ key = messageKeyOf ck

section
variable {masterSecret : S}

theorem RootAt.chainStart {i : Nat} {rk : S} (root : RootAt masterSecret i rk) (dhOut : S) :
    ChainAt masterSecret (i + 1) 0 (chainStart rk dhOut) :=
  ⟨i, rk, dhOut, rfl, root, rfl⟩

theorem ChainAt.next {j n : Nat} {ck : S} (chain : ChainAt masterSecret j n ck) :
    ChainAt masterSecret j (n + 1) (chainStep ck) := by
  obtain ⟨i, rk, dhOut, rfl, root, rfl⟩ := chain
  exact ⟨i, rk, dhOut, rfl, root, (Function.iterate_succ_apply' _ _ _).symm⟩

theorem ChainAt.messageKey {j n : Nat} {ck : S} (chain : ChainAt masterSecret j n ck) :
    KeyAt masterSecret j n (messageKeyOf ck) :=
  ⟨ck, chain, rfl⟩

theorem rootStep_inj (ideal : Ideal S) {rk rk' dhOut dhOut' : S} (same : rootStep rk dhOut = rootStep rk' dhOut') :
    rk = rk' := by
  obtain ⟨_, salts, _⟩ := ideal.hkdf_inj same
  exact salts

theorem RootAt.ne_master (ideal : Ideal S) {i : Nat} {rk : S} (root : RootAt masterSecret i rk) (dhOut : S) :
    rootStep rk dhOut ≠ masterSecret := by
  obtain ⟨size, grows⟩ := ideal.hkdf_grows
  have larger : size masterSecret ≤ size rk := by
    induction root with
    | master => exact le_refl _
    | @step level rk dhOut _ ih => exact ih.trans (grows [dhOut] rk kdfRkInfo 0).1.le
  have growth : size rk < size (rootStep rk dhOut) := (grows [dhOut] rk kdfRkInfo 0).1
  intro same
  rw [same] at growth
  omega

theorem RootAt.origin {i : Nat} {rk : S} (root : RootAt masterSecret i rk) :
    (i = 0 ∧ rk = masterSecret) ∨
      ∃ i' rk' dhOut, i = i' + 1 ∧ rk = rootStep rk' dhOut ∧ RootAt masterSecret i' rk' := by
  cases root with
  | master => exact Or.inl ⟨rfl, rfl⟩
  | step dhOut known => exact Or.inr ⟨_, _, dhOut, rfl, rfl, known⟩

theorem RootAt.unique (ideal : Ideal S) {i i' : Nat} {rk : S} (root : RootAt masterSecret i rk)
    (root' : RootAt masterSecret i' rk) : i = i' := by
  induction root generalizing i' with
  | master =>
    rcases root'.origin with ⟨rfl, _⟩ | ⟨_, _, dhOut, _, same, known⟩
    · rfl
    · exact (known.ne_master ideal dhOut same.symm).elim
  | @step level rk dhOut known ih =>
    rcases root'.origin with ⟨_, same⟩ | ⟨i', rk', dhOut', rfl, same, known'⟩
    · exact (known.ne_master ideal dhOut same).elim
    · rw [← rootStep_inj ideal same] at known'
      rw [ih known']

theorem KeyAt.unique (ideal : Ideal S) {j j' n n' : Nat} {key : S} (position : KeyAt masterSecret j n key)
    (position' : KeyAt masterSecret j' n' key) : j = j' ∧ n = n' := by
  obtain ⟨ck, ⟨i, rk, dhOut, rfl, root, rfl⟩, rfl⟩ := position
  obtain ⟨ck', ⟨i', rk', dhOut', rfl, root', rfl⟩, same⟩ := position'
  obtain ⟨numbers, roots⟩ := chain_position_inj ideal (messageKeyOf_inj ideal same)
  rw [← roots] at root'
  exact ⟨by rw [root.unique ideal root'], numbers⟩

end

/-- The level of a party's root key, which is also the number of its sending chain, and the next places
on its sending and on its receiving chain. -/
structure Place where
  level : Nat
  sent : Nat
  read : Nat

/-- Both chains of the party are past this place. -/
def Place.Past (place : Place) (j n : Nat) : Prop :=
  j ≤ place.level ∧ (j = place.level → n < place.sent) ∧ (j + 1 = place.level → n < place.read)

/-- The bank holds keys of the chains received so far, each under one id. -/
structure BankStands (masterSecret : S) (place : Place) (st : RatchetState S) : Prop where
  wellFormed : WellFormed st
  behind : ∀ keyId mk, st.skippedKeys.lookup keyId = some mk →
    ∃ j n, KeyAt masterSecret j n mk ∧ j < place.level ∧ place.Past j n
  once : ∀ keyId keyId' mk, st.skippedKeys.lookup keyId = some mk → st.skippedKeys.lookup keyId' = some mk →
    keyId = keyId'

structure Stands (masterSecret : S) (place : Place) (st : RatchetState S) : Prop where
  bank : BankStands masterSecret place st
  root : RootAt masterSecret place.level st.rootKey
  sending : ∀ ck, st.sendingChainKey = some ck → ChainAt masterSecret place.level place.sent ck
  receiving : ∀ ck, st.receivingChainKey = some ck →
    ∃ j, j + 1 = place.level ∧ ChainAt masterSecret j place.read ck

/-- A key that the state has moved past and does not keep. -/
structure Spent (masterSecret : S) (place : Place) (st : RatchetState S) (key : S) : Prop where
  past : ∃ j n, KeyAt masterSecret j n key ∧ place.Past j n
  unbanked : ∀ keyId, st.skippedKeys.lookup keyId ≠ some key

/-- A party that goes from `st` to `st'` stays on the schedule, and no spent key comes back. -/
structure Moves (masterSecret : S) (place : Place) (st : RatchetState S) (place' : Place) (st' : RatchetState S) :
    Prop where
  parity : place'.level % 2 = place.level % 2
  stands : Stands masterSecret place' st'
  spent : ∀ key, Spent masterSecret place st key → Spent masterSecret place' st' key

section
variable {masterSecret : S} {place : Place} {st : RatchetState S}

theorem Moves.refl (stands : Stands masterSecret place st) : Moves masterSecret place st place st :=
  ⟨rfl, stands, fun _ spent => spent⟩

theorem Moves.trans {place' place'' : Place} {st' st'' : RatchetState S}
    (first : Moves masterSecret place st place' st') (second : Moves masterSecret place' st' place'' st'') :
    Moves masterSecret place st place'' st'' :=
  ⟨second.parity.trans first.parity, second.stands, fun key spent => second.spent key (first.spent key spent)⟩

theorem Spent.mono {place' : Place} {st' : RatchetState S} {key : S} (spent : Spent masterSecret place st key)
    (later : ∀ j n, place.Past j n → place'.Past j n)
    (kept : ∀ keyId, st'.skippedKeys.lookup keyId = some key → st.skippedKeys.lookup keyId = some key) :
    Spent masterSecret place' st' key := by
  obtain ⟨j, n, position, past⟩ := spent.past
  exact ⟨⟨j, n, position, later j n past⟩, fun keyId banked => spent.unbanked keyId (kept keyId banked)⟩

theorem BankStands.mono {place' : Place} {st' : RatchetState S} (bank : BankStands masterSecret place st)
    (level : place.level ≤ place'.level) (later : ∀ j n, place.Past j n → place'.Past j n) (wellFormed : WellFormed st')
    (kept : ∀ keyId mk, st'.skippedKeys.lookup keyId = some mk → st.skippedKeys.lookup keyId = some mk) :
    BankStands masterSecret place' st' := by
  refine ⟨wellFormed, ?_, ?_⟩
  · intro keyId mk banked
    obtain ⟨j, n, position, received, past⟩ := bank.behind keyId mk (kept keyId mk banked)
    exact ⟨j, n, position, by omega, later j n past⟩
  · intro keyId keyId' mk banked banked'
    exact bank.once keyId keyId' mk (kept keyId mk banked) (kept keyId' mk banked')

theorem BankStands.unbanked (ideal : Ideal S) (bank : BankStands masterSecret place st) {j n : Nat} {key : S}
    (position : KeyAt masterSecret j n key) (ahead : ¬(j < place.level ∧ place.Past j n)) (keyId : String) :
    st.skippedKeys.lookup keyId ≠ some key := by
  intro banked
  obtain ⟨i, m, position', received, past⟩ := bank.behind keyId key banked
  obtain ⟨rfl, rfl⟩ := position.unique ideal position'
  exact ahead ⟨received, past⟩

/-! ### Each step -/

theorem Place.Past.sending {j n : Nat} (past : place.Past j n) :
    Place.Past { place with sent := place.sent + 1 } j n := by
  obtain ⟨inside, sent, read⟩ := past
  exact ⟨inside, fun current => Nat.lt_succ_of_lt (sent current), read⟩

theorem Place.Past.reading {j n : Nat} (past : place.Past j n) :
    Place.Past { place with read := place.read + 1 } j n := by
  obtain ⟨inside, sent, read⟩ := past
  exact ⟨inside, sent, fun current => Nat.lt_succ_of_lt (read current)⟩

theorem afterSend_moves (ideal : Ideal S) (stands : Stands masterSecret place st) {ck : S}
    (sending : st.sendingChainKey = some ck) :
    Moves masterSecret place st { place with sent := place.sent + 1 } (afterSend st ck) ∧
      Spent masterSecret { place with sent := place.sent + 1 } (afterSend st ck) (messageKeyOf ck) := by
  have chain := stands.sending ck sending
  refine ⟨⟨rfl, ⟨?_, stands.root, ?_, stands.receiving⟩, ?_⟩, ⟨?_, ?_⟩⟩
  · exact stands.bank.mono (le_refl _) (fun _ _ past => past.sending)
      ⟨stands.bank.wellFormed.nodup, stands.bank.wellFormed.banked⟩ (fun _ _ banked => banked)
  · intro next stored
    obtain rfl := Option.some.inj stored
    exact chain.next
  · intro key spent
    exact spent.mono (fun _ _ past => past.sending) (fun _ banked => banked)
  · exact ⟨_, _, chain.messageKey, le_refl _, fun _ => Nat.lt_succ_self _, fun absurd => (Nat.succ_ne_self _ absurd).elim⟩
  · exact stands.bank.unbanked ideal chain.messageKey (fun ahead => absurd ahead.1 (lt_irrefl _))

theorem bankSkippedKey_stands (ideal : Ideal S) (bank : BankStands masterSecret place st) {j : Nat} {mk : S}
    (position : KeyAt masterSecret j place.read mk) (current : j + 1 = place.level) (keyId : String) :
    BankStands masterSecret { place with read := place.read + 1 } (bankSkippedKey st keyId mk) ∧
      ∀ key, Spent masterSecret place st key →
        Spent masterSecret { place with read := place.read + 1 } (bankSkippedKey st keyId mk) key := by
  have spec := bankSkippedKey_spec bank.wellFormed keyId mk
  have source : ∀ {other v}, (bankSkippedKey st keyId mk).skippedKeys.lookup other = some v →
      (other = keyId ∧ v = mk) ∨ st.skippedKeys.lookup other = some v := by
    intro other v banked
    rw [spec.lookup_eq] at banked
    split at banked
    · split at banked
      · exact Or.inl ⟨by assumption, (Option.some.inj banked).symm⟩
      · exact Or.inr banked
    · cases banked
  have ahead : ¬(j < place.level ∧ place.Past j place.read) := by
    intro given
    obtain ⟨_, _, _, read⟩ := given
    exact absurd (read current) (lt_irrefl _)
  have new := bank.unbanked ideal position ahead
  refine ⟨⟨spec.wellFormed, ?_, ?_⟩, ?_⟩
  · intro other v banked
    rcases source banked with ⟨_, rfl⟩ | old
    · exact ⟨j, place.read, position, Nat.lt_of_succ_le current.le, Nat.le_of_succ_le current.le,
        fun absurd => by dsimp only at absurd; omega, fun _ => Nat.lt_succ_self _⟩
    · obtain ⟨i, m, position', received, past⟩ := bank.behind other v old
      exact ⟨i, m, position', received, past.reading⟩
  · intro first second v banked banked'
    rcases source banked with ⟨rfl, rfl⟩ | old <;> rcases source banked' with ⟨rfl, same⟩ | old'
    · rfl
    · exact (new second old').elim
    · exact (new first (same ▸ old)).elim
    · exact bank.once first second v old old'
  · intro key spent
    obtain ⟨i, m, position', past⟩ := spent.past
    refine ⟨⟨i, m, position', past.reading⟩, fun other banked => ?_⟩
    rcases source banked with ⟨_, rfl⟩ | old
    · obtain ⟨rfl, rfl⟩ := position.unique ideal position'
      exact ahead ⟨Nat.lt_of_succ_le current.le, past⟩
    · exact spent.unbanked other old

theorem bankAll_stands (ideal : Ideal S) (dhr : Bytes32) (start count : Nat) {ck : S} {j : Nat}
    (bank : BankStands masterSecret place st) (chain : ChainAt masterSecret j place.read ck)
    (current : j + 1 = place.level) :
    BankStands masterSecret { place with read := place.read + count }
        (bankAll st (skippedEntries dhr ck start count)) ∧
      ChainAt masterSecret j (place.read + count) (chainStep^[count] ck) ∧
      ∀ key, Spent masterSecret place st key →
        Spent masterSecret { place with read := place.read + count }
          (bankAll st (skippedEntries dhr ck start count)) key := by
  induction count generalizing place st ck start with
  | zero => exact ⟨bank, chain, fun _ spent => spent⟩
  | succ count ih =>
    obtain ⟨banked, spent⟩ := bankSkippedKey_stands ideal bank chain.messageKey current
      (skippedKeyId dhr (UInt32.ofNat start))
    obtain ⟨bank', chain', spent'⟩ := ih (start + 1) banked chain.next current
    have further : place.read + 1 + count = place.read + (count + 1) := by omega
    rw [further] at bank' chain' spent'
    exact ⟨bank', chain', fun key old => spent' key (spent key old)⟩

theorem skips_moves_place (ideal : Ideal S) (stands : Stands masterSecret place st) {until_ : UInt32}
    {st' : RatchetState S} (skips : Skips st until_ st') :
    ∃ read, Moves masterSecret place st { place with read } st' := by
  rcases skips with ⟨_, rfl⟩ | ⟨ck, receiving, _, ⟨_, rfl⟩ | ⟨d, _, rfl⟩⟩
  · exact ⟨place.read, Moves.refl stands⟩
  · exact ⟨place.read, Moves.refl stands⟩
  · obtain ⟨j, current, chain⟩ := stands.receiving ck receiving
    obtain ⟨bank, advanced, spent⟩ := bankAll_stands ideal d st.receivingMsgNumber.toNat
      (until_.toNat - st.receivingMsgNumber.toNat) stands.bank chain current
    have frame := bankAll_frame st (skippedEntries d ck st.receivingMsgNumber.toNat
      (until_.toNat - st.receivingMsgNumber.toNat))
    refine ⟨place.read + (until_.toNat - st.receivingMsgNumber.toNat), rfl, ⟨?_, ?_, ?_, ?_⟩, ?_⟩
    · exact ⟨⟨bank.wellFormed.nodup, bank.wellFormed.banked⟩, bank.behind, bank.once⟩
    · rw [skipped, frame]
      exact stands.root
    · rw [skipped, frame]
      exact stands.sending
    · intro next stored
      obtain rfl := Option.some.inj stored
      exact ⟨j, current, advanced⟩
    · intro key old
      exact ⟨(spent key old).past, (spent key old).unbanked⟩

theorem stepped_moves (stands : Stands masterSecret place st) (d : Bytes32) (rng : StepRandom S) :
    Moves masterSecret place st ⟨place.level + 2, 0, 0⟩ (stepped st d rng) := by
  have later : ∀ j n, place.Past j n → Place.Past ⟨place.level + 2, 0, 0⟩ j n := by
    rintro j n ⟨inside, _⟩
    exact ⟨Nat.le_add_right_of_le inside, fun absurd => by dsimp only at absurd; omega,
      fun absurd => by dsimp only at absurd; omega⟩
  refine ⟨Nat.add_mod_right _ 2, ⟨?_, ?_, ?_, ?_⟩, ?_⟩
  · exact stands.bank.mono (Nat.le_add_right _ 2) later
      ⟨stands.bank.wellFormed.nodup, stands.bank.wellFormed.banked⟩ (fun _ _ banked => banked)
  · exact .step _ (.step _ stands.root)
  · intro ck stored
    obtain rfl := Option.some.inj stored
    exact (RootAt.step _ stands.root).chainStart _
  · intro ck stored
    obtain rfl := Option.some.inj stored
    exact ⟨place.level + 1, rfl, stands.root.chainStart _⟩
  · intro key spent
    exact spent.mono later (fun _ banked => banked)

theorem received_moves (ideal : Ideal S) (stands : Stands masterSecret place st) {ck : S}
    (receiving : st.receivingChainKey = some ck) :
    Moves masterSecret place st { place with read := place.read + 1 } (received st ck) ∧
      Spent masterSecret { place with read := place.read + 1 } (received st ck) (messageKeyOf ck) := by
  obtain ⟨j, current, chain⟩ := stands.receiving ck receiving
  refine ⟨⟨rfl, ⟨?_, stands.root, stands.sending, ?_⟩, ?_⟩, ⟨?_, ?_⟩⟩
  · exact stands.bank.mono (le_refl _) (fun _ _ past => past.reading)
      ⟨stands.bank.wellFormed.nodup, stands.bank.wellFormed.banked⟩ (fun _ _ banked => banked)
  · intro next stored
    obtain rfl := Option.some.inj stored
    exact ⟨j, current, chain.next⟩
  · intro key spent
    exact spent.mono (fun _ _ past => past.reading) (fun _ banked => banked)
  · exact ⟨j, _, chain.messageKey, Nat.le_of_succ_le current.le, fun absurd => by dsimp only at absurd; omega,
      fun _ => Nat.lt_succ_self _⟩
  · exact stands.bank.unbanked ideal chain.messageKey (fun ahead => absurd (ahead.2.2.2 current) (lt_irrefl _))

theorem consumed_moves (stands : Stands masterSecret place st) {keyId : String} {mk : S}
    (banked : st.skippedKeys.lookup keyId = some mk) :
    Moves masterSecret place st place (consumed st keyId) ∧ Spent masterSecret place (consumed st keyId) mk := by
  have kept : ∀ other v, (consumed st keyId).skippedKeys.lookup other = some v →
      other ≠ keyId ∧ st.skippedKeys.lookup other = some v := by
    intro other v stored
    by_cases same : other = keyId
    · rw [same, consumed, Finmap.lookup_erase] at stored
      cases stored
    · rw [consumed, Finmap.lookup_erase_ne same] at stored
      exact ⟨same, stored⟩
  have wellFormed := (consumed_spec stands.bank.wellFormed keyId).wellFormed
  refine ⟨⟨rfl, ⟨?_, stands.root, stands.sending, stands.receiving⟩, ?_⟩, ⟨?_, ?_⟩⟩
  · exact stands.bank.mono (le_refl _) (fun _ _ past => past) wellFormed (fun other v stored => (kept other v stored).2)
  · intro key spent
    exact spent.mono (fun _ _ past => past) (fun other stored => (kept other key stored).2)
  · obtain ⟨j, n, position, _, past⟩ := stands.bank.behind keyId mk banked
    exact ⟨j, n, position, past⟩
  · intro other stored
    obtain ⟨different, old⟩ := kept other mk stored
    exact different (stands.bank.once other keyId mk old banked)

/-- Only a DH step moves a party on to another level, and then by two. -/
theorem reaches_moves (ideal : Ideal S) (stands : Stands masterSecret place st) {header : MessageHeader} {d : Bytes32}
    {rng : StepRandom S} {mid : RatchetState S} (reaches : Reaches st header d rng mid) :
    ∃ place', Moves masterSecret place st place' mid ∧
      place'.level = if st.dhr = some d then place.level else place.level + 2 := by
  rcases reaches with ⟨current, skips⟩ | ⟨different, before, skips, skips'⟩
  · obtain ⟨read, moves⟩ := skips_moves_place ideal stands skips
    exact ⟨_, moves, (if_pos current).symm⟩
  · obtain ⟨read, moves⟩ := skips_moves_place ideal stands skips
    have steps := stepped_moves moves.stands d rng
    obtain ⟨read', moves'⟩ := skips_moves_place ideal steps.stands skips'
    exact ⟨_, (moves.trans steps).trans moves', (if_neg different).symm⟩

/-- A message that is accepted was opened with a key that is spent from then on. -/
theorem accepted_moves (ideal : Ideal S) (stands : Stands masterSecret place st) {msg : EncryptedMessage}
    {ad pt : Bytes} {rng : StepRandom S} {st' : RatchetState S}
    (accepted : ratchetDecrypt st msg ad rng = (.ok pt, st')) :
    ∃ place' mk, Moves masterSecret place st place' st' ∧ openMessage mk msg ad = .ok pt ∧
      Spent masterSecret place' st' mk := by
  obtain ⟨d, decoded⟩ := ratchetDecrypt_decodes accepted
  rcases (ratchetDecrypt_ok_iff decoded).mp accepted with
    ⟨mk, banked, opens, rfl⟩ | ⟨_, _, mid, ck, reaches, receiving, opens, rfl⟩
  · obtain ⟨moves, spent⟩ := consumed_moves stands banked
    exact ⟨place, mk, moves, opens, spent⟩
  · obtain ⟨place', moves, _⟩ := reaches_moves ideal stands reaches
    obtain ⟨moves', spent⟩ := received_moves ideal moves.stands receiving
    exact ⟨_, messageKeyOf ck, moves.trans moves', opens, spent⟩

end
end TrinoCore
