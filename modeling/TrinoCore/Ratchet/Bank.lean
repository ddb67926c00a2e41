import TrinoCore.Lib.BoundedQueue
import TrinoCore.Ratchet.Model

/-!
The bank of skipped keys as a bounded queue.

`skipped_keys` and `skipped_key_order` are updated separately and a legacy session has keys that
the order list does not mention. `queue` is the eviction order the two of them stand for.
-/

namespace TrinoCore

variable {S : Type}

/-- The order list has no duplicates and mentions only banked keys. -/
structure WellFormed (st : RatchetState S) : Prop where
  nodup : st.skippedKeyOrder.Nodup
  banked : ∀ keyId ∈ st.skippedKeyOrder, keyId ∈ st.skippedKeys

/-- Every banked key has an order entry, as in a session that never was a legacy one. -/
def Covered (st : RatchetState S) : Prop := ∀ keyId ∈ st.skippedKeys, keyId ∈ st.skippedKeyOrder

/-- The order in which keys are evicted: those without an order entry, sorted, then the rest. -/
def queue (st : RatchetState S) : List String :=
  sortedIds (st.skippedKeys.keys.filter (· ∉ st.skippedKeyOrder)) ++ st.skippedKeyOrder

def withBankOf (st source : RatchetState S) : RatchetState S :=
  { st with skippedKeys := source.skippedKeys, skippedKeyOrder := source.skippedKeyOrder }

@[simp] theorem queue_withBankOf (st source : RatchetState S) : queue (withBankOf st source) = queue source := rfl

theorem wellFormed_withBankOf {st source : RatchetState S} :
    WellFormed (withBankOf st source) ↔ WellFormed source :=
  ⟨fun h => ⟨h.nodup, h.banked⟩, fun h => ⟨h.nodup, h.banked⟩⟩

theorem mem_queue {st : RatchetState S} (wf : WellFormed st) {keyId : String} :
    keyId ∈ queue st ↔ keyId ∈ st.skippedKeys := by
  simp only [queue, List.mem_append, Finset.mem_sort, Finset.mem_filter, Finmap.mem_keys]
  constructor
  · intro either
    rcases either with ⟨banked, _⟩ | ordered
    · exact banked
    · exact wf.banked keyId ordered
  · intro banked
    by_cases ordered : keyId ∈ st.skippedKeyOrder
    · exact Or.inr ordered
    · exact Or.inl ⟨banked, ordered⟩

theorem nodup_queue {st : RatchetState S} (wf : WellFormed st) : (queue st).Nodup := by
  apply List.nodup_append.mpr
  refine ⟨Finset.sort_nodup _ _, wf.nodup, ?_⟩
  rintro keyId unordered _ ordered rfl
  exact (Finset.mem_filter.mp ((Finset.mem_sort _).mp unordered)).2 ordered

theorem length_queue {st : RatchetState S} (wf : WellFormed st) :
    (queue st).length = st.skippedKeys.keys.card := by
  rw [← List.toFinset_card_of_nodup (nodup_queue wf)]
  congr 1
  ext keyId
  rw [List.mem_toFinset, mem_queue wf, Finmap.mem_keys]

theorem queue_eq_order {st : RatchetState S} (wf : WellFormed st)
    (full : st.skippedKeyOrder.length = st.skippedKeys.keys.card) : queue st = st.skippedKeyOrder := by
  have lengths := length_queue wf
  rw [queue, List.length_append, full] at lengths
  have none_left : (sortedIds (st.skippedKeys.keys.filter (· ∉ st.skippedKeyOrder))).length = 0 := by omega
  unfold queue
  rw [List.length_eq_zero_iff.mp none_left, List.nil_append]

theorem adopt_order {st : RatchetState S} (wf : WellFormed st) :
    adoptUnorderedSkippedKeys st = { st with skippedKeyOrder := queue st } := by
  unfold adoptUnorderedSkippedKeys
  split
  · rename_i full
    rw [queue_eq_order wf full]
  · rfl

/-- On an order list that enumerates the bank, the loop trims the list to the cap and keeps exactly
the keys the list still mentions. The `break` on an empty list is never what stops it. -/
theorem evictLoop_spec (order : List String) (keys : Finmap (fun _ : String => S))
    (nodup : order.Nodup) (enumerates : ∀ keyId, keyId ∈ order ↔ keyId ∈ keys) :
    (evictLoop keys order).2 = BoundedQueue.trim maxSkippedKeys order ∧
      ∀ keyId, (evictLoop keys order).1.lookup keyId =
        if keyId ∈ BoundedQueue.trim maxSkippedKeys order then keys.lookup keyId else none := by
  have unbanked : ∀ {order : List String} {keys : Finmap (fun _ : String => S)},
      (∀ keyId, keyId ∈ order ↔ keyId ∈ keys) →
      ∀ keyId, keys.lookup keyId = if keyId ∈ order then keys.lookup keyId else none := by
    intro order keys enumerates keyId
    split
    · rfl
    · rename_i absent
      apply Finmap.lookup_eq_none.mpr
      intro banked
      exact absent ((enumerates keyId).mpr banked)
  induction order generalizing keys with
  | nil =>
    have within : BoundedQueue.trim maxSkippedKeys ([] : List String) = [] :=
      BoundedQueue.trim_of_le (Nat.zero_le _)
    rw [within]
    exact ⟨rfl, unbanked enumerates⟩
  | cons oldest rest ih =>
    have size : keys.keys.card = rest.length + 1 := by
      rw [← List.length_cons (a := oldest), ← List.toFinset_card_of_nodup nodup]
      congr 1
      ext keyId
      rw [List.mem_toFinset, enumerates, Finmap.mem_keys]
    have oldest_fresh : oldest ∉ rest := (List.nodup_cons.mp nodup).1
    unfold evictLoop
    split
    · rename_i excess
      have remaining : ∀ keyId, keyId ∈ rest ↔ keyId ∈ keys.erase oldest := by
        intro keyId
        rw [Finmap.mem_erase, ← enumerates, List.mem_cons]
        constructor
        · intro present
          exact ⟨fun same => oldest_fresh (same ▸ present), Or.inr present⟩
        · intro given
          rcases given with ⟨different, same | present⟩
          · exact absurd same different
          · exact present
      rw [BoundedQueue.trim_cons_of_lt (by omega)]
      obtain ⟨order', keys'⟩ := ih (keys.erase oldest) (List.nodup_cons.mp nodup).2 remaining
      refine ⟨order', fun keyId => ?_⟩
      rw [keys' keyId]
      split
      · rename_i kept
        have different : keyId ≠ oldest := by
          rintro rfl
          exact oldest_fresh (List.mem_of_mem_drop kept)
        rw [Finmap.lookup_erase_ne different]
      · rfl
    · have within : BoundedQueue.trim maxSkippedKeys (oldest :: rest) = oldest :: rest :=
        BoundedQueue.trim_of_le (by rw [List.length_cons]; omega)
      rw [within]
      exact ⟨rfl, unbanked enumerates⟩

/-- What one bank operation does to a well-formed state. -/
structure Banked (st st' : RatchetState S) (order : List String) (value : String → Option S) : Prop where
  frame : st' = withBankOf st st'
  wellFormed : WellFormed st'
  covered : Covered st → Covered st'
  queue_eq : queue st' = order
  lookup_eq : ∀ keyId, st'.skippedKeys.lookup keyId = if keyId ∈ order then value keyId else none

theorem evict_spec {st : RatchetState S} (wf : WellFormed st) :
    Banked st (evictOldestSkippedKeys st) (BoundedQueue.trim maxSkippedKeys (queue st))
      (st.skippedKeys.lookup ·) := by
  unfold evictOldestSkippedKeys
  split
  · rename_i within
    have whole : BoundedQueue.trim maxSkippedKeys (queue st) = queue st :=
      BoundedQueue.trim_of_le (by rw [length_queue wf]; exact within)
    refine ⟨rfl, wf, id, whole.symm, fun keyId => ?_⟩
    rw [whole]
    split
    · rfl
    · rename_i absent
      apply Finmap.lookup_eq_none.mpr
      intro banked
      exact absent ((mem_queue wf).mpr banked)
  · rw [adopt_order wf]
    obtain ⟨order', keys'⟩ := evictLoop_spec (queue st) st.skippedKeys (nodup_queue wf) (fun _ => mem_queue wf)
    dsimp only
    generalize evictLoop st.skippedKeys (queue st) = evicted at order' keys' ⊢
    obtain ⟨keys, order⟩ := evicted
    dsimp only at order' keys' ⊢
    subst order
    have kept : ∀ keyId, keyId ∈ keys ↔ keyId ∈ BoundedQueue.trim maxSkippedKeys (queue st) := by
      intro keyId
      rw [← Finmap.lookup_isSome, keys' keyId]
      split
      · rename_i present
        have banked := (mem_queue wf).mp (List.mem_of_mem_drop present)
        simpa [present] using Finmap.lookup_isSome.mpr banked
      · rename_i absent
        simp [absent]
    have nodup : (BoundedQueue.trim maxSkippedKeys (queue st)).Nodup :=
      (nodup_queue wf).sublist (List.drop_sublist _ _)
    generalize BoundedQueue.trim maxSkippedKeys (queue st) = trimmed at keys' kept nodup ⊢
    have wf' : WellFormed { st with skippedKeys := keys, skippedKeyOrder := trimmed } :=
      ⟨nodup, fun keyId present => (kept keyId).mpr present⟩
    refine ⟨rfl, wf', fun _ keyId banked => (kept keyId).mp banked, ?_, keys'⟩
    apply queue_eq_order wf'
    rw [← List.toFinset_card_of_nodup nodup]
    congr 1
    ext keyId
    rw [List.mem_toFinset, Finmap.mem_keys, kept]

/-! ### Banking one key -/

theorem lookup_inserted {st : RatchetState S} (wf : WellFormed st) (keyId : String) (mk : S) (other : String) :
    (st.skippedKeys.insert keyId mk).lookup other =
      if other ∈ BoundedQueue.enqueue (queue st) keyId then
        (if other = keyId then some mk else st.skippedKeys.lookup other) else none := by
  by_cases same : other = keyId
  · subst other
    simp [BoundedQueue.mem_enqueue]
  · rw [Finmap.lookup_insert_of_ne _ same, if_neg same]
    split
    · rfl
    · rename_i absent
      rw [BoundedQueue.mem_enqueue, not_or, mem_queue wf] at absent
      exact Finmap.lookup_eq_none.mpr absent.1

theorem insert_banked {st : RatchetState S} (wf : WellFormed st) {keyId : String} (banked : keyId ∈ st.skippedKeys) (mk : S) :
    Banked st { st with skippedKeys := st.skippedKeys.insert keyId mk } (BoundedQueue.enqueue (queue st) keyId)
      (fun other => if other = keyId then some mk else st.skippedKeys.lookup other) := by
  have keys_same : (st.skippedKeys.insert keyId mk).keys = st.skippedKeys.keys := by
    ext other
    rw [Finmap.mem_keys, Finmap.mem_insert, Finmap.mem_keys]
    exact ⟨fun h => h.elim (fun same => same ▸ banked) (fun old => old), Or.inr⟩
  have queued : BoundedQueue.enqueue (queue st) keyId = queue st := if_pos ((mem_queue wf).mpr banked)
  refine ⟨rfl, ⟨wf.nodup, ?_⟩, ?_, ?_, lookup_inserted wf keyId mk⟩
  · intro other ordered
    apply Finmap.mem_insert.mpr
    exact Or.inr (wf.banked other ordered)
  · intro covered other present
    rcases Finmap.mem_insert.mp present with same | old
    · exact same ▸ covered keyId banked
    · exact covered other old
  · rw [queued, queue, queue]
    simp only [keys_same]

theorem insert_unbanked {st : RatchetState S} (wf : WellFormed st) {keyId : String} (unbanked : keyId ∉ st.skippedKeys) (mk : S) :
    Banked st
      { st with skippedKeys := st.skippedKeys.insert keyId mk, skippedKeyOrder := st.skippedKeyOrder ++ [keyId] }
      (BoundedQueue.enqueue (queue st) keyId)
      (fun other => if other = keyId then some mk else st.skippedKeys.lookup other) := by
  have unordered : keyId ∉ st.skippedKeyOrder := fun ordered => unbanked (wf.banked keyId ordered)
  have queued : BoundedQueue.enqueue (queue st) keyId = queue st ++ [keyId] :=
    if_neg (fun present => unbanked ((mem_queue wf).mp present))
  refine ⟨rfl, ⟨?_, ?_⟩, ?_, ?_, lookup_inserted wf keyId mk⟩
  · exact wf.nodup.append (List.nodup_singleton keyId) (by simpa using unordered)
  · intro other ordered
    rcases List.mem_append.mp ordered with old | new
    · apply Finmap.mem_insert.mpr
      exact Or.inr (wf.banked other old)
    · apply Finmap.mem_insert.mpr
      exact Or.inl (List.mem_singleton.mp new)
  · intro covered other present
    rcases Finmap.mem_insert.mp present with same | old
    · exact List.mem_append_right _ (List.mem_singleton.mpr same)
    · exact List.mem_append_left _ (covered other old)
  · rw [queued, queue, queue, List.append_assoc]
    congr 2
    ext other
    simp only [Finset.mem_filter, Finmap.mem_keys, Finmap.mem_insert, List.mem_append,
      List.mem_singleton, not_or]
    constructor
    · intro given
      rcases given with ⟨same | banked, absent, different⟩
      · exact absurd same different
      · exact ⟨banked, absent⟩
    · intro given
      obtain ⟨banked, absent⟩ := given
      exact ⟨Or.inr banked, absent, fun same => unbanked (same ▸ banked)⟩

theorem insert_spec {st : RatchetState S} (wf : WellFormed st) (keyId : String) (mk : S) :
    ∃ inserted : RatchetState S, bankSkippedKey st keyId mk = evictOldestSkippedKeys inserted ∧
      Banked st inserted (BoundedQueue.enqueue (queue st) keyId)
        (fun other => if other = keyId then some mk else st.skippedKeys.lookup other) := by
  unfold bankSkippedKey
  dsimp only
  cases found : st.skippedKeys.lookup keyId with
  | some old => exact ⟨_, rfl, insert_banked wf (Finmap.mem_of_lookup_eq_some found) mk⟩
  | none => exact ⟨_, rfl, insert_unbanked wf (Finmap.lookup_eq_none.mp found) mk⟩

/-- Banking a key is a push on the bounded queue. -/
theorem bankSkippedKey_spec {st : RatchetState S} (wf : WellFormed st) (keyId : String) (mk : S) :
    Banked st (bankSkippedKey st keyId mk) (BoundedQueue.push maxSkippedKeys (queue st) keyId)
      (fun other => if other = keyId then some mk else st.skippedKeys.lookup other) := by
  obtain ⟨inserted, same, bank⟩ := insert_spec wf keyId mk
  have evicted := evict_spec bank.wellFormed
  rw [same]
  refine ⟨?_, evicted.wellFormed, fun covered => evicted.covered (bank.covered covered), ?_, ?_⟩
  · rw [evicted.frame, bank.frame]
    rfl
  · rw [evicted.queue_eq, bank.queue_eq]
    rfl
  · intro other
    rw [evicted.lookup_eq, bank.queue_eq, BoundedQueue.push]
    split
    · rename_i kept
      rw [bank.lookup_eq, if_pos (List.mem_of_mem_drop kept)]
    · rfl

theorem keys_insert (keys : Finmap (fun _ : String => S)) (keyId : String) (mk : S) :
    (keys.insert keyId mk).keys = insert keyId keys.keys := by
  ext other
  rw [Finmap.mem_keys, Finmap.mem_insert, Finset.mem_insert, Finmap.mem_keys]

theorem bankSkippedKey_room {st : RatchetState S} {keyId : String} (unbanked : keyId ∉ st.skippedKeys)
    (room : st.skippedKeys.keys.card + 1 ≤ maxSkippedKeys) (mk : S) :
    bankSkippedKey st keyId mk =
      { st with skippedKeys := st.skippedKeys.insert keyId mk, skippedKeyOrder := st.skippedKeyOrder ++ [keyId] } := by
  have within : (st.skippedKeys.insert keyId mk).keys.card ≤ maxSkippedKeys := by
    rw [keys_insert]
    exact (Finset.card_insert_le _ _).trans room
  unfold bankSkippedKey evictOldestSkippedKeys
  dsimp only
  rw [Finmap.lookup_eq_none.mpr unbanked]
  exact if_pos within

end TrinoCore
