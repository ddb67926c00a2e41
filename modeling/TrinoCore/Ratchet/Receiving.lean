import TrinoCore.Ratchet.Fifo
import TrinoCore.Ratchet.Session

/-!
What a receiver holds, against the key schedule.

A message number is passed when the receiver's chain has moved beyond it. The key of a passed number
is banked, or the message was taken, or the key was evicted, and never two of these.
-/

namespace TrinoCore

variable {S : Type}

/-- A message as a receiver took it: with its associated data and plaintext. -/
abbrev Taken := EncryptedMessage × Bytes × Bytes

theorem lookup_bankAll {st : RatchetState S} (wf : WellFormed st) {entries : List (String × S)} {keyId : String}
    {mk : S} (found : (bankAll st entries).skippedKeys.lookup keyId = some mk) :
    st.skippedKeys.lookup keyId = some mk ∨ (keyId, mk) ∈ entries := by
  induction entries generalizing st with
  | nil => exact Or.inl found
  | cons entry rest ih =>
    have first := bankSkippedKey_spec wf entry.1 entry.2
    rcases ih first.wellFormed found with before | later
    · rw [first.lookup_eq] at before
      split at before
      · split at before
        · rename_i _ same
          obtain rfl := Option.some.inj before
          rw [same]
          exact Or.inr List.mem_cons_self
        · exact Or.inl before
      · cases before
    · exact Or.inr (List.mem_cons_of_mem _ later)

/-- If banking a run of new keys loses no old key then it loses no new one either. -/
theorem bankAll_keeps {st : RatchetState S} (wf : WellFormed st)
    (within : st.skippedKeys.keys.card ≤ maxSkippedKeys) {entries : List (String × S)}
    (few : entries.length ≤ maxSkippedKeys) (nodup : (entries.map Prod.fst).Nodup)
    (fresh : ∀ keyId ∈ entries.map Prod.fst, keyId ∉ st.skippedKeys)
    (kept : ∀ keyId ∈ st.skippedKeys, keyId ∈ (bankAll st entries).skippedKeys)
    {keyId : String} (added : keyId ∈ entries.map Prod.fst) : keyId ∈ (bankAll st entries).skippedKeys := by
  obtain ⟨wf', _, queued⟩ := bankAll_spec wf entries
  have all_new : (queue st ++ entries.map Prod.fst).Nodup := by
    apply (nodup_queue wf).append nodup
    intro other old new
    exact fresh other new ((mem_queue wf).mp old)
  rw [BoundedQueue.foldl_push (by rw [length_queue wf]; exact within) all_new] at queued
  have whole : BoundedQueue.trim maxSkippedKeys (queue st ++ entries.map Prod.fst) =
      queue st ++ entries.map Prod.fst := by
    cases front : queue st with
    | nil =>
      apply BoundedQueue.trim_of_le
      rw [List.nil_append, List.length_map]
      exact few
    | cons oldest rest =>
      -- the oldest key would be the first to go, and it is still there
      by_contra trimmed
      have excess : maxSkippedKeys < (rest ++ entries.map Prod.fst).length + 1 := by
        by_contra room
        exact trimmed (BoundedQueue.trim_of_le (by rw [List.cons_append, List.length_cons]; omega))
      rw [front] at queued all_new
      rw [List.cons_append, BoundedQueue.trim_cons_of_lt excess] at queued
      have banked : oldest ∈ st.skippedKeys := (mem_queue wf).mp (front ▸ List.mem_cons_self)
      have still := (mem_queue wf').mpr (kept oldest banked)
      rw [queued] at still
      exact (List.nodup_cons.mp all_new).1 (List.mem_of_mem_drop still)
  rw [whole] at queued
  rw [← mem_queue wf', queued]
  exact List.mem_append_right _ added

variable [Primitives S]

/-- Number `n` under the peer's key `j` is behind a receiver at level `c`. -/
def Passed (T : Timeline S) (c : Nat) (received : UInt32) (j n : Nat) : Prop :=
  (j + c) % 2 = 1 ∧ (j + 1 < c ∧ n < T.count j ∨ j + 1 = c ∧ n < received.toNat)

theorem Passed.lt {T : Timeline S} {c j n : Nat} {received : UInt32} (passed : Passed T c received j n) :
    n < 2 ^ 32 ∧ j < c := by
  have counted := T.count_lt j
  have bound := received.toNat_lt
  obtain ⟨_, ⟨old, below⟩ | ⟨current, below⟩⟩ := passed
  · omega
  · omega

theorem Timeline.Later.passed {T T' : Timeline S} (later : T.Later T') {c : Nat} (known : c ≤ T.top)
    {received : UInt32} {j n : Nat} : Passed T' c received j n ↔ Passed T c received j n := by
  have settled : j + 1 < c → T'.count j = T.count j := fun old => later.settled j (by omega)
  unfold Passed
  constructor
  · intro given
    rcases given with ⟨parity, ⟨old, below⟩ | current⟩
    · exact ⟨parity, Or.inl ⟨old, by rw [← settled old]; exact below⟩⟩
    · exact ⟨parity, Or.inr current⟩
  · intro given
    rcases given with ⟨parity, ⟨old, below⟩ | current⟩
    · exact ⟨parity, Or.inl ⟨old, by rw [settled old]; exact below⟩⟩
    · exact ⟨parity, Or.inr current⟩

/-- The bank and the messages taken, of a receiver at level `c`. -/
structure Receives (T : Timeline S) (c : Nat) (st : RatchetState S) (taken : List Taken) : Prop where
  wellFormed : WellFormed st
  within : st.skippedKeys.keys.card ≤ maxSkippedKeys
  banked : ∀ keyId mk, st.skippedKeys.lookup keyId = some mk →
    ∃ j n, Passed T c st.receivingMsgNumber j n ∧ keyId = T.bankId j n ∧ mk = T.messageKey j n
  read : ∀ msg ad pt, (msg, ad, pt) ∈ taken →
    ∃ j n, Passed T c st.receivingMsgNumber j n ∧ bankIdOf msg = some (T.bankId j n) ∧
      T.bankId j n ∉ st.skippedKeys ∧ openMessage (T.messageKey j n) msg ad = .ok pt
  once : (taken.map fun entry => bankIdOf entry.1).Nodup

/-- Every passed number is banked or was taken. -/
def Complete (T : Timeline S) (c : Nat) (st : RatchetState S) (taken : List Taken) : Prop :=
  ∀ j n, Passed T c st.receivingMsgNumber j n →
    T.bankId j n ∈ st.skippedKeys ∨ ∃ entry ∈ taken, bankIdOf entry.1 = some (T.bankId j n)

section
variable {T T' : Timeline S} {c : Nat} {st : RatchetState S} {taken : List Taken}

theorem Receives.later (receives : Receives T c st taken) (later : T.Later T') (known : c ≤ T.top) :
    Receives T' c st taken := by
  refine ⟨receives.wellFormed, receives.within, ?_, ?_, receives.once⟩
  · intro keyId mk found
    obtain ⟨j, n, passed, sameId, sameKey⟩ := receives.banked keyId mk found
    have below := passed.lt.2
    refine ⟨j, n, (later.passed known).mpr passed, ?_, ?_⟩
    · rw [later.bankId (by omega), sameId]
    · rw [later.messageKey (by omega), sameKey]
  · intro msg ad pt present
    obtain ⟨j, n, passed, own, gone, opens⟩ := receives.read msg ad pt present
    have below := passed.lt.2
    rw [← later.bankId (by omega)] at own gone
    rw [← later.messageKey (by omega)] at opens
    exact ⟨j, n, (later.passed known).mpr passed, own, gone, opens⟩

theorem Complete.later (complete : Complete T c st taken) (later : T.Later T') (known : c ≤ T.top) :
    Complete T' c st taken := by
  intro j n passed
  have old := (later.passed known).mp passed
  have below := old.lt.2
  rw [later.bankId (by omega)]
  exact complete j n old

theorem Receives.not_taken (receives : Receives T c st taken) {keyId : String} (banked : keyId ∈ st.skippedKeys)
    {entry : Taken} (present : entry ∈ taken) : bankIdOf entry.1 ≠ some keyId := by
  intro own
  obtain ⟨j, n, _, same, gone, _⟩ := receives.read entry.1 entry.2.1 entry.2.2 present
  obtain rfl := Option.some.inj (own.symm.trans same)
  exact gone banked

theorem once_append {msg : EncryptedMessage} {ad pt : Bytes} (once : (taken.map fun entry => bankIdOf entry.1).Nodup)
    (unread : ∀ entry ∈ taken, bankIdOf entry.1 ≠ bankIdOf msg) :
    ((taken ++ [(msg, ad, pt)]).map fun entry => bankIdOf entry.1).Nodup := by
  rw [List.map_append, List.map_singleton]
  apply once.append (List.nodup_singleton _)
  intro keyId old new
  obtain ⟨entry, present, rfl⟩ := List.mem_map.mp old
  exact unread entry present (List.mem_singleton.mp new)

theorem Receives.consume (receives : Receives T c st taken) {j n : Nat} {msg : EncryptedMessage}
    {ad pt : Bytes} (passed : Passed T c st.receivingMsgNumber j n) (own : bankIdOf msg = some (T.bankId j n))
    (banked : T.bankId j n ∈ st.skippedKeys) (opens : openMessage (T.messageKey j n) msg ad = .ok pt) :
    Receives T c (consumed st (T.bankId j n)) (taken ++ [(msg, ad, pt)]) := by
  have spec := consumed_spec receives.wellFormed (T.bankId j n)
  have still : ∀ keyId, keyId ∈ (consumed st (T.bankId j n)).skippedKeys → keyId ≠ T.bankId j n ∧ keyId ∈ st.skippedKeys :=
    fun keyId present => Finmap.mem_erase.mp present
  refine ⟨spec.wellFormed, ?_, ?_, ?_, ?_⟩
  · rw [← length_queue spec.wellFormed, spec.queue_eq]
    exact List.length_erase_le.trans (by rw [length_queue receives.wellFormed]; exact receives.within)
  · intro keyId mk found
    have different := (still keyId (Finmap.mem_of_lookup_eq_some found)).1
    have old : st.skippedKeys.lookup keyId = some mk := by rw [← Finmap.lookup_erase_ne different]; exact found
    exact receives.banked keyId mk old
  · intro other otherAd otherPt present
    rcases List.mem_append.mp present with before | last
    · obtain ⟨i, m, behind, same, gone, opened⟩ := receives.read other otherAd otherPt before
      exact ⟨i, m, behind, same, fun inside => gone (still _ inside).2, opened⟩
    · obtain ⟨rfl, rfl, rfl⟩ : other = msg ∧ otherAd = ad ∧ otherPt = pt := by
        simpa only [List.mem_singleton, Prod.mk.injEq] using last
      exact ⟨j, n, passed, own, fun inside => (still _ inside).1 rfl, opens⟩
  · apply once_append receives.once
    intro entry present
    rw [own]
    exact receives.not_taken banked present

theorem Complete.consume (complete : Complete T c st taken) {j n : Nat} {msg : EncryptedMessage} {ad pt : Bytes}
    (own : bankIdOf msg = some (T.bankId j n)) :
    Complete T c (consumed st (T.bankId j n)) (taken ++ [(msg, ad, pt)]) := by
  intro i m passed
  by_cases same : T.bankId i m = T.bankId j n
  · exact Or.inr ⟨_, List.mem_append_right _ (List.mem_singleton.mpr rfl), by rw [same, own]⟩
  · rcases complete i m passed with banked | ⟨entry, present, read⟩
    · exact Or.inl (Finmap.mem_erase.mpr ⟨same, banked⟩)
    · exact Or.inr ⟨entry, List.mem_append_left _ present, read⟩

def Timeline.entries (T : Timeline S) (items : List (Nat × Nat)) : List (String × S) :=
  items.map fun item => (T.bankId item.1 item.2, T.messageKey item.1 item.2)

/-- A receiver moves on to message `(j, n)`, banking `items` on the way. -/
structure Advances (T T' : Timeline S) (c c' : Nat) (st next : RatchetState S) (items : List (Nat × Nat))
    (j n : Nat) : Prop where
  later : T.Later T'
  known : c ≤ T.top
  known' : c' ≤ T'.top
  bank : SameBank next (bankAll st (T'.entries items))
  passed : ∀ i m, Passed T' c' next.receivingMsgNumber i m ↔
    Passed T c st.receivingMsgNumber i m ∨ (i, m) ∈ items ∨ (i, m) = (j, n)
  unseen : ∀ i m, (i, m) ∈ items ∨ (i, m) = (j, n) → ¬Passed T c st.receivingMsgNumber i m
  skipped : (j, n) ∉ items
  nodup : items.Nodup

theorem Advances.bankId_inj {next : RatchetState S} {items : List (Nat × Nat)} {c' j n : Nat}
    (advances : Advances T T' c c' st next items j n) {i i' m m' : Nat}
    (passed : Passed T' c' next.receivingMsgNumber i m) (passed' : Passed T' c' next.receivingMsgNumber i' m')
    (same : T'.bankId i m = T'.bankId i' m') : (i, m) = (i', m') := by
  have known := advances.known'
  obtain ⟨small, below⟩ := passed.lt
  obtain ⟨small', below'⟩ := passed'.lt
  obtain ⟨rfl, rfl⟩ := Timeline.bankId_inj (by omega) (by omega) small small' same
  rfl

theorem Advances.fresh {next : RatchetState S} {items : List (Nat × Nat)} {c' j n : Nat}
    (advances : Advances T T' c c' st next items j n) (receives : Receives T c st taken) {i m : Nat}
    (new : (i, m) ∈ items ∨ (i, m) = (j, n)) : T'.bankId i m ∉ st.skippedKeys := by
  intro banked
  obtain ⟨mk, found⟩ := Finmap.mem_iff.mp banked
  obtain ⟨i', m', passed, sameId, _⟩ := receives.banked _ mk found
  have below := passed.lt.2
  have known := advances.known
  rw [← advances.later.bankId (by omega)] at sameId
  have same := advances.bankId_inj ((advances.passed i m).mpr (Or.inr new))
    ((advances.passed i' m').mpr (Or.inl passed)) sameId
  obtain ⟨rfl, rfl⟩ := Prod.mk.inj same
  exact advances.unseen i m new passed

theorem Receives.advance {next : RatchetState S} {items : List (Nat × Nat)} {c' j n : Nat}
    {msg : EncryptedMessage} {ad pt : Bytes} (receives : Receives T c st taken)
    (advances : Advances T T' c c' st next items j n) (own : bankIdOf msg = some (T'.bankId j n))
    (opens : openMessage (T'.messageKey j n) msg ad = .ok pt) :
    Receives T' c' next (taken ++ [(msg, ad, pt)]) := by
  obtain ⟨wf', _, _⟩ := bankAll_spec receives.wellFormed (T'.entries items)
  have current : Passed T' c' next.receivingMsgNumber j n := (advances.passed j n).mpr (Or.inr (Or.inr rfl))
  have kept := receives.later advances.later advances.known
  have origin : ∀ keyId mk, next.skippedKeys.lookup keyId = some mk →
      st.skippedKeys.lookup keyId = some mk ∨
        ∃ item ∈ items, keyId = T'.bankId item.1 item.2 ∧ mk = T'.messageKey item.1 item.2 := by
    intro keyId mk found
    rw [advances.bank.1] at found
    rcases lookup_bankAll receives.wellFormed found with old | added
    · exact Or.inl old
    · obtain ⟨item, present, same⟩ := List.mem_map.mp added
      obtain ⟨sameId, sameKey⟩ := Prod.mk.inj same
      exact Or.inr ⟨item, present, sameId.symm, sameKey.symm⟩
  have absent : ∀ i m, Passed T' c' next.receivingMsgNumber i m → T'.bankId i m ∉ st.skippedKeys →
      (i, m) ∉ items → T'.bankId i m ∉ next.skippedKeys := by
    intro i m passed notOld notNew banked
    obtain ⟨mk, found⟩ := Finmap.mem_iff.mp banked
    rcases origin _ mk found with old | ⟨item, present, sameId, _⟩
    · exact notOld (Finmap.mem_of_lookup_eq_some old)
    · have itemPassed := (advances.passed item.1 item.2).mpr (Or.inr (Or.inl present))
      exact notNew (advances.bankId_inj passed itemPassed sameId ▸ present)
  refine ⟨advances.bank.wellFormed wf', ?_, ?_, ?_, ?_⟩
  · rw [advances.bank.1]
    exact card_bankAll_le_of_le receives.wellFormed receives.within _
  · intro keyId mk found
    rcases origin keyId mk found with old | ⟨item, present, sameId, sameKey⟩
    · obtain ⟨i, m, passed, rest⟩ := kept.banked keyId mk old
      exact ⟨i, m, (advances.passed i m).mpr (Or.inl ((advances.later.passed advances.known).mp passed)), rest⟩
    · exact ⟨item.1, item.2, (advances.passed _ _).mpr (Or.inr (Or.inl present)), sameId, sameKey⟩
  · intro other otherAd otherPt present
    rcases List.mem_append.mp present with before | last
    · obtain ⟨i, m, passed, same, gone, opened⟩ := kept.read other otherAd otherPt before
      have old := (advances.later.passed advances.known).mp passed
      have passed' := (advances.passed i m).mpr (Or.inl old)
      refine ⟨i, m, passed', same, absent i m passed' gone ?_, opened⟩
      exact fun new => advances.unseen i m (Or.inl new) old
    · obtain ⟨rfl, rfl, rfl⟩ : other = msg ∧ otherAd = ad ∧ otherPt = pt := by
        simpa only [List.mem_singleton, Prod.mk.injEq] using last
      exact ⟨j, n, current, own, absent j n current (advances.fresh receives (Or.inr rfl)) advances.skipped, opens⟩
  · apply once_append receives.once
    intro entry present same
    obtain ⟨i, m, passed, read, _⟩ := kept.read entry.1 entry.2.1 entry.2.2 present
    have old := (advances.later.passed advances.known).mp passed
    have equal := advances.bankId_inj ((advances.passed i m).mpr (Or.inl old)) current
      (Option.some.inj (read.symm.trans (same.trans own)))
    exact advances.unseen i m (Or.inr equal) old

theorem Complete.advance {next : RatchetState S} {items : List (Nat × Nat)} {c' j n : Nat}
    {msg : EncryptedMessage} {ad pt : Bytes} (complete : Complete T c st taken) (receives : Receives T c st taken)
    (advances : Advances T T' c c' st next items j n) (own : bankIdOf msg = some (T'.bankId j n))
    (few : items.length ≤ maxSkippedKeys)
    (kept : ∀ keyId ∈ st.skippedKeys, keyId ∈ next.skippedKeys ∨ bankIdOf msg = some keyId) :
    Complete T' c' next (taken ++ [(msg, ad, pt)]) := by
  have still : ∀ keyId ∈ st.skippedKeys, keyId ∈ next.skippedKeys := by
    intro keyId banked
    rcases kept keyId banked with still | same
    · exact still
    · -- the key of the message just read was not in the bank
      rw [Option.some.inj (same.symm.trans own)] at banked
      exact (advances.fresh receives (Or.inr rfl) banked).elim
  intro i m passed
  rcases (advances.passed i m).mp passed with old | new | last
  · have known := advances.known
    have below := old.lt.2
    rw [advances.later.bankId (by omega)]
    rcases complete i m old with banked | ⟨entry, present, read⟩
    · exact Or.inl (still _ banked)
    · exact Or.inr ⟨entry, List.mem_append_left _ present, read⟩
  · have ids : (T'.entries items).map Prod.fst = items.map fun item => T'.bankId item.1 item.2 := by
      unfold Timeline.entries
      rw [List.map_map]
      rfl
    have distinct : ((T'.entries items).map Prod.fst).Nodup := by
      rw [ids]
      apply advances.nodup.map_on
      intro a inA b inB same
      exact advances.bankId_inj ((advances.passed a.1 a.2).mpr (Or.inr (Or.inl inA)))
        ((advances.passed b.1 b.2).mpr (Or.inr (Or.inl inB))) same
    left
    rw [advances.bank.1]
    apply bankAll_keeps receives.wellFormed receives.within (by simpa [Timeline.entries] using few) distinct
    · intro keyId added
      rw [ids] at added
      obtain ⟨item, present, rfl⟩ := List.mem_map.mp added
      exact advances.fresh receives (Or.inl present)
    · intro keyId banked
      rw [← advances.bank.1]
      exact still keyId banked
    · rw [ids]
      exact List.mem_map.mpr ⟨(i, m), new, rfl⟩
  · obtain ⟨rfl, rfl⟩ := Prod.mk.inj last
    exact Or.inr ⟨_, List.mem_append_right _ (List.mem_singleton.mpr rfl), own⟩

end
end TrinoCore
