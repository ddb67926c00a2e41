import Mathlib.Data.FinEnum
import Mathlib.Order.Lattice.Nat
import TrinoCore.Ratchet.Authenticity
import TrinoCore.Ratchet.FirstChain

/-!
The state a receiver settles in once a set of messages of its current chain has arrived.

What the state is depends on the set alone: the counter is past the largest number, the numbers jumped
over are banked in ascending order, and the keys of what was read are gone.
-/

namespace TrinoCore

variable {S : Type} [Primitives S]

/-- A call of `ratchet_decrypt`. -/
structure Delivery (S : Type) where
  message : EncryptedMessage
  associatedData : Bytes
  rng : StepRandom S

def Delivery.number (m : Delivery S) : UInt32 := m.message.header.n

def deliverAll (st : RatchetState S) (batch : List (Delivery S)) : RatchetState S :=
  batch.foldl (fun st m => (ratchetDecrypt st m.message m.associatedData m.rng).2) st

omit [Primitives S] in
/-- The counter after the messages `read`: past the largest of them, and never back. -/
def counterAfter (st : RatchetState S) (read : Finset UInt32) : Nat :=
  max st.receivingMsgNumber.toNat (read.sup fun n => n.toNat + 1)

omit [Primitives S] in
def passedIds (st : RatchetState S) (d : Bytes32) (counter : Nat) : List String :=
  (List.range' st.receivingMsgNumber.toNat (counter - st.receivingMsgNumber.toNat)).map
    fun n => skippedKeyId d (UInt32.ofNat n)

/-- What is left of `st` once the messages `read` of the chain under `d` have been read. -/
structure Settled (st : RatchetState S) (d : Bytes32) (read : Finset UInt32) (st' : RatchetState S) : Prop where
  frame : st' = withBankOf
    { st with receivingMsgNumber := st'.receivingMsgNumber, receivingChainKey := st'.receivingChainKey } st'
  counter : st'.receivingMsgNumber.toNat = counterAfter st read
  chain : st'.receivingChainKey =
    st.receivingChainKey.map chainStep^[counterAfter st read - st.receivingMsgNumber.toNat]
  order : st'.skippedKeyOrder = (st.skippedKeyOrder ++ passedIds st d (counterAfter st read)).filter
    fun keyId => ∀ n ∈ read, keyId ≠ skippedKeyId d n
  used : ∀ n ∈ read, skippedKeyId d n ∉ st'.skippedKeys
  skipped : ∀ n : UInt32, n ∉ read → st.receivingMsgNumber ≤ n → n.toNat < counterAfter st read →
    st'.skippedKeys.lookup (skippedKeyId d n) =
      st.receivingChainKey.map fun ck => messageKeyAt ck (n.toNat - st.receivingMsgNumber.toNat)
  kept : ∀ keyId, (∀ n, keyId = skippedKeyId d n → n ∉ read ∧ (st.receivingMsgNumber ≤ n → counterAfter st read ≤ n.toNat)) →
    st'.skippedKeys.lookup keyId = st.skippedKeys.lookup keyId

theorem Settled.unique {st a b : RatchetState S} {d : Bytes32} {read : Finset UInt32} (first : Settled st d read a)
    (second : Settled st d read b) : a = b := by
  have counters : a.receivingMsgNumber = b.receivingMsgNumber :=
    UInt32.toNat_inj.mp (first.counter.trans second.counter.symm)
  have chains : a.receivingChainKey = b.receivingChainKey := first.chain.trans second.chain.symm
  have orders : a.skippedKeyOrder = b.skippedKeyOrder := first.order.trans second.order.symm
  have banks : a.skippedKeys = b.skippedKeys := by
    apply Finmap.ext_lookup
    intro keyId
    by_cases outside : ∀ n, keyId = skippedKeyId d n →
        n ∉ read ∧ (st.receivingMsgNumber ≤ n → counterAfter st read ≤ n.toNat)
    · rw [first.kept keyId outside, second.kept keyId outside]
    · push Not at outside
      obtain ⟨n, rfl, inside⟩ := outside
      by_cases done : n ∈ read
      · rw [Finmap.lookup_eq_none.mpr (first.used n done), Finmap.lookup_eq_none.mpr (second.used n done)]
      · obtain ⟨ahead, below⟩ := inside done
        rw [first.skipped n done ahead below, second.skipped n done ahead below]
  rw [first.frame, second.frame, counters, chains, withBankOf, withBankOf, banks, orders]

theorem Settled.refl {st : RatchetState S} {d : Bytes32} : Settled st d ∅ st := by
  have counter : counterAfter st ∅ = st.receivingMsgNumber.toNat := by
    unfold counterAfter
    rw [Finset.sup_empty]
    exact Nat.max_eq_left (Nat.zero_le _)
  refine ⟨rfl, counter.symm, ?_, ?_, ?_, ?_, fun _ _ => rfl⟩
  · rw [counter, Nat.sub_self]
    simp
  · rw [counter]
    simp [passedIds]
  · intro n present
    exact absurd present (Finset.notMem_empty n)
  · intro n _ ahead below
    have less := UInt32.le_iff_toNat_le.mp ahead
    omega

/-! ### One more message -/

/-- A state that receives on the chain under `d`, whose start was `base`. -/
structure Receiver (st : RatchetState S) (d : Bytes32) (base : S) : Prop where
  dhr : st.dhr = some d
  current : d ∉ st.retiredPeerDhKeys
  chain : st.receivingChainKey = some (chainStep^[st.receivingMsgNumber.toNat] base)
  wellFormed : WellFormed st
  ahead : ∀ n : UInt32, st.receivingMsgNumber ≤ n → skippedKeyId d n ∉ st.skippedKeys

variable {st mid : RatchetState S} {d : Bytes32} {read : Finset UInt32} {n : UInt32} {base : S}

omit [Primitives S] in
theorem counterAfter_insert :
    counterAfter st (insert n read) = max (n.toNat + 1) (counterAfter st read) := by
  unfold counterAfter
  rw [Finset.sup_insert]
  exact max_left_comm _ _ _

variable (st) in
omit [Primitives S] in
theorem lt_counterAfter (present : n ∈ read) : n.toNat < counterAfter st read := by
  have below : n.toNat + 1 ≤ read.sup fun m => m.toNat + 1 := Finset.le_sup (f := fun m : UInt32 => m.toNat + 1) present
  exact lt_of_lt_of_le (Nat.lt_succ_self _) (below.trans (le_max_right _ _))

variable (st read) in
omit [Primitives S] in
theorem le_counterAfter : st.receivingMsgNumber.toNat ≤ counterAfter st read := le_max_left _ _

omit [Primitives S] in
theorem filter_insert (ids : List String) :
    ids.filter (fun keyId => ∀ m ∈ insert n read, keyId ≠ skippedKeyId d m) =
      (ids.filter fun keyId => ∀ m ∈ read, keyId ≠ skippedKeyId d m).filter (· ≠ skippedKeyId d n) := by
  rw [List.filter_filter]
  apply List.filter_congr
  intro keyId _
  simp only [Finset.mem_insert, forall_eq_or_imp, Bool.decide_and]

theorem Settled.read_banked (settled : Settled st d read mid) (passed : n.toNat < counterAfter st read) :
    Settled st d (insert n read) (consumed mid (skippedKeyId d n)) := by
  have counter : counterAfter st (insert n read) = counterAfter st read := by
    rw [counterAfter_insert]
    exact max_eq_right passed
  refine ⟨?_, ?_, ?_, ?_, ?_, ?_, ?_⟩
  · change consumed mid (skippedKeyId d n) = withBankOf (withBankOf
      { st with receivingMsgNumber := mid.receivingMsgNumber, receivingChainKey := mid.receivingChainKey } mid)
      (consumed mid (skippedKeyId d n))
    rw [← settled.frame]
    rfl
  · rw [counter]
    exact settled.counter
  · rw [counter]
    exact settled.chain
  · rw [counter, filter_insert, ← settled.order]
    rfl
  · intro m present banked
    obtain ⟨different, old⟩ := Finmap.mem_erase.mp banked
    rcases Finset.mem_insert.mp present with rfl | before
    · exact different rfl
    · exact settled.used m before old
  · intro m absent ahead below
    rw [Finset.mem_insert, not_or] at absent
    rw [counter] at below
    have other : skippedKeyId d m ≠ skippedKeyId d n := fun same => absent.1 (skippedKeyId_inj.mp same).2
    exact (Finmap.lookup_erase_ne other).trans (settled.skipped m absent.2 ahead below)
  · intro keyId outside
    have other : keyId ≠ skippedKeyId d n := fun same => (outside n same).1 (Finset.mem_insert_self n read)
    refine (Finmap.lookup_erase_ne other).trans (settled.kept keyId ?_)
    intro m same
    obtain ⟨absent, beyond⟩ := outside m same
    rw [counter] at beyond
    exact ⟨fun present => absent (Finset.mem_insert_of_mem present), beyond⟩

theorem Settled.ahead_free (settled : Settled st d read mid) (receiver : Receiver st d base)
    (ahead : counterAfter st read ≤ n.toNat) : skippedKeyId d n ∉ mid.skippedKeys := by
  have start := le_counterAfter st read
  rw [← Finmap.lookup_eq_none, settled.kept]
  · exact Finmap.lookup_eq_none.mpr (receiver.ahead n (UInt32.le_iff_toNat_le.mpr (by omega)))
  · intro m same
    obtain rfl := (skippedKeyId_inj.mp same).2
    refine ⟨fun present => ?_, fun _ => ahead⟩
    have below := lt_counterAfter st present
    omega

theorem Settled.card_le (settled : Settled st d read mid) :
    mid.skippedKeys.keys.card ≤
      st.skippedKeys.keys.card + (counterAfter st read - st.receivingMsgNumber.toNat) := by
  have inside : mid.skippedKeys.keys ⊆ st.skippedKeys.keys ∪ (passedIds st d (counterAfter st read)).toFinset := by
    intro keyId banked
    rw [Finset.mem_union, Finmap.mem_keys]
    by_cases outside : ∀ m, keyId = skippedKeyId d m →
        m ∉ read ∧ (st.receivingMsgNumber ≤ m → counterAfter st read ≤ m.toNat)
    · left
      rw [← Finmap.lookup_isSome, ← settled.kept keyId outside, Finmap.lookup_isSome]
      exact Finmap.mem_keys.mp banked
    · push Not at outside
      obtain ⟨m, rfl, passed⟩ := outside
      have unread : m ∉ read := fun present => settled.used m present (Finmap.mem_keys.mp banked)
      obtain ⟨ahead, below⟩ := passed unread
      have least := UInt32.le_iff_toNat_le.mp ahead
      right
      rw [List.mem_toFinset, passedIds, List.mem_map]
      refine ⟨m.toNat, List.mem_range'_1.mpr ⟨least, by omega⟩, ?_⟩
      rw [UInt32.ofNat_toNat]
  have size : (passedIds st d (counterAfter st read)).length = counterAfter st read - st.receivingMsgNumber.toNat := by
    rw [passedIds, List.length_map, List.length_range']
  calc mid.skippedKeys.keys.card
      ≤ (st.skippedKeys.keys ∪ (passedIds st d (counterAfter st read)).toFinset).card := Finset.card_le_card inside
    _ ≤ st.skippedKeys.keys.card + (passedIds st d (counterAfter st read)).toFinset.card := Finset.card_union_le _ _
    _ ≤ st.skippedKeys.keys.card + (counterAfter st read - st.receivingMsgNumber.toNat) := by
      rw [← size]
      exact Nat.add_le_add_left (List.toFinset_card_le _) _

/-- What jumping from the counter to a later number banks. -/
structure Jumped (base : S) (d : Bytes32) (mid : RatchetState S) (from_ until_ : Nat) (next : RatchetState S) : Prop where
  order : next.skippedKeyOrder = mid.skippedKeyOrder ++
    (List.range' from_ (until_ - from_)).map fun m => skippedKeyId d (UInt32.ofNat m)
  added : ∀ m : UInt32, from_ ≤ m.toNat → m.toNat < until_ →
    next.skippedKeys.lookup (skippedKeyId d m) = some (messageKeyAt base m.toNat)
  others : ∀ keyId, (∀ m : UInt32, keyId = skippedKeyId d m → from_ ≤ m.toNat → until_ ≤ m.toNat) →
    next.skippedKeys.lookup keyId = mid.skippedKeys.lookup keyId

theorem bankAll_jumped (wf : WellFormed mid) {from_ until_ : Nat} (small : until_ < 2 ^ 32)
    (free : ∀ m : UInt32, from_ ≤ m.toNat → skippedKeyId d m ∉ mid.skippedKeys)
    (room : mid.skippedKeys.keys.card + (until_ - from_) ≤ maxSkippedKeys) :
    Jumped base d mid from_ until_ (bankAll mid (skippedEntries d (chainStep^[from_] base) from_ (until_ - from_))) := by
  rw [skippedEntries_eq_map]
  generalize listed : (List.range' from_ (until_ - from_)).map
    (fun m => (skippedKeyId d (UInt32.ofNat m), messageKeyAt base m)) = entries
  have keys : entries.map Prod.fst = (List.range' from_ (until_ - from_)).map fun m => skippedKeyId d (UInt32.ofNat m) := by
    rw [← listed, List.map_map]
    rfl
  have mem_keys : ∀ keyId, keyId ∈ entries.map Prod.fst ↔
      ∃ m : UInt32, (from_ ≤ m.toNat ∧ m.toNat < until_) ∧ keyId = skippedKeyId d m := by
    intro keyId
    rw [keys]
    exact mem_chainIds (by omega)
  have nodup : (entries.map Prod.fst).Nodup := by
    rw [keys]
    exact nodup_chainIds d (by omega)
  have fresh : ∀ keyId ∈ entries.map Prod.fst, keyId ∉ mid.skippedKeys := by
    intro keyId present
    obtain ⟨m, inside, rfl⟩ := (mem_keys keyId).mp present
    exact free m inside.1
  have count : entries.length = until_ - from_ := by
    rw [← listed, List.length_map, List.length_range']
  obtain ⟨_, _, order, added, others⟩ := bankAll_room wf nodup fresh (by rw [count]; exact room)
  refine ⟨by rw [order, keys], ?_, ?_⟩
  · intro m least below
    apply added (skippedKeyId d m, messageKeyAt base m.toNat)
    rw [← listed, List.mem_map]
    exact ⟨m.toNat, List.mem_range'_1.mpr (by omega), by rw [UInt32.ofNat_toNat]⟩
  · intro keyId outside
    apply others
    intro present
    obtain ⟨m, inside, same⟩ := (mem_keys keyId).mp present
    have beyond := outside m same inside.1
    omega

omit [Primitives S] in
theorem passedIds_append {counter : Nat} (start : st.receivingMsgNumber.toNat ≤ counter) (ahead : counter ≤ n.toNat) :
    passedIds st d (n.toNat + 1) = passedIds st d counter ++
      ((List.range' counter (n.toNat - counter)).map (fun m => skippedKeyId d (UInt32.ofNat m)) ++ [skippedKeyId d n]) := by
  have split : List.range' st.receivingMsgNumber.toNat (n.toNat + 1 - st.receivingMsgNumber.toNat) =
      List.range' st.receivingMsgNumber.toNat (counter - st.receivingMsgNumber.toNat) ++
        (List.range' counter (n.toNat - counter) ++ [n.toNat]) := by
    have first : counter = st.receivingMsgNumber.toNat + (counter - st.receivingMsgNumber.toNat) := by omega
    have last : [n.toNat] = List.range' (counter + (n.toNat - counter)) 1 := by
      rw [Nat.add_sub_cancel' ahead]
      rfl
    have count : n.toNat + 1 - st.receivingMsgNumber.toNat =
        (counter - st.receivingMsgNumber.toNat) + ((n.toNat - counter) + 1) := by omega
    rw [last, List.range'_append_1, count, ← List.range'_append_1, ← first]
  unfold passedIds
  rw [split, List.map_append, List.map_append, List.map_singleton, UInt32.ofNat_toNat]

/-- Jumping to `n` and reading it adds to the order list what was jumped over. -/
theorem Settled.order_ahead (settled : Settled st d read mid) (receiver : Receiver st d base) (wf : WellFormed mid)
    (ahead : counterAfter st read ≤ n.toNat) :
    (st.skippedKeyOrder ++ passedIds st d (n.toNat + 1)).filter
        (fun keyId => ∀ m ∈ insert n read, keyId ≠ skippedKeyId d m) =
      mid.skippedKeyOrder ++ (List.range' (counterAfter st read) (n.toNat - counterAfter st read)).map
        (fun m => skippedKeyId d (UInt32.ofNat m)) := by
  have limit := n.toNat_lt
  have others : ∀ keyId ∈ mid.skippedKeyOrder, decide (keyId ≠ skippedKeyId d n) = true := by
    intro keyId ordered
    apply decide_eq_true
    rintro rfl
    exact settled.ahead_free receiver ahead (wf.banked _ ordered)
  have new : ∀ m, m ∈ List.range' (counterAfter st read) (n.toNat - counterAfter st read) →
      ∀ k ∈ insert n read, skippedKeyId d (UInt32.ofNat m) ≠ skippedKeyId d k := by
    intro m inside k present same
    rw [List.mem_range'_1] at inside
    have value : (UInt32.ofNat m).toNat = m := toNat_ofNat (by omega)
    rw [(skippedKeyId_inj.mp same).2] at value
    rcases Finset.mem_insert.mp present with rfl | before
    · omega
    · have below := lt_counterAfter st before
      omega
  have oldPart : (st.skippedKeyOrder ++ passedIds st d (counterAfter st read)).filter
      (fun keyId => ∀ m ∈ insert n read, keyId ≠ skippedKeyId d m) = mid.skippedKeyOrder := by
    rw [filter_insert, ← settled.order, List.filter_eq_self.mpr others]
  have newPart : ((List.range' (counterAfter st read) (n.toNat - counterAfter st read)).map
      fun m => skippedKeyId d (UInt32.ofNat m)).filter (fun keyId => ∀ m ∈ insert n read, keyId ≠ skippedKeyId d m) =
        (List.range' (counterAfter st read) (n.toNat - counterAfter st read)).map
          fun m => skippedKeyId d (UInt32.ofNat m) := by
    apply List.filter_eq_self.mpr
    intro keyId present
    obtain ⟨m, inside, rfl⟩ := List.mem_map.mp present
    exact decide_eq_true (new m inside)
  have last : ([skippedKeyId d n].filter fun keyId => ∀ m ∈ insert n read, keyId ≠ skippedKeyId d m) = [] := by
    apply List.filter_eq_nil_iff.mpr
    intro keyId present
    rw [List.mem_singleton.mp present, decide_eq_true_eq]
    exact fun absurd => absurd n (Finset.mem_insert_self n read) rfl
  rw [passedIds_append (le_counterAfter _ _) ahead, ← List.append_assoc, ← List.append_assoc, List.filter_append, last,
    List.append_nil, List.filter_append, oldPart, newPart]

theorem Settled.jump (settled : Settled st d read mid) (receiver : Receiver st d base) (wf : WellFormed mid)
    (ahead : counterAfter st read ≤ n.toNat) (near : n.toNat ≤ st.receivingMsgNumber.toNat + maxSkip.toNat)
    (room : st.skippedKeys.keys.card + (n.toNat - st.receivingMsgNumber.toNat) ≤ maxSkippedKeys) :
    ∃ jumped, Skips mid n jumped ∧ jumped.receivingMsgNumber = n ∧
      jumped.receivingChainKey = some (chainStep^[n.toNat] base) ∧
      Jumped base d mid (counterAfter st read) n.toNat jumped := by
  have start := le_counterAfter st read
  have counter := settled.counter
  have dhr : mid.dhr = some d := (congrArg RatchetState.dhr settled.frame :).trans receiver.dhr
  have chain : mid.receivingChainKey = some (chainStep^[counterAfter st read] base) := by
    rw [settled.chain, receiver.chain, Option.map_some, ← Function.iterate_add_apply, Nat.sub_add_cancel start]
  obtain ⟨jumped, skips⟩ := skips_exists mid n (fun _ => by omega)
  obtain ⟨_, number, moved⟩ := skips_moves skips chain dhr
  rw [counter, ← Function.iterate_add_apply, Nat.sub_add_cancel ahead] at moved
  rw [counter, Nat.add_sub_cancel' ahead, UInt32.ofNat_toNat] at number
  have bank := skips_bank skips
  rw [keysSkipped, chain, dhr] at bank
  dsimp only at bank
  rw [counter] at bank
  have size := settled.card_le
  have whole : Jumped base d mid (counterAfter st read) n.toNat _ :=
    bankAll_jumped wf n.toNat_lt (fun m least => settled.ahead_free receiver least) (by omega)
  refine ⟨jumped, skips, number, moved, bank.2.trans whole.order, ?_, ?_⟩
  · intro m least below
    rw [bank.1]
    exact whole.added m least below
  · intro keyId outside
    rw [bank.1]
    exact whole.others keyId outside

theorem Jumped.outside {from_ until_ : Nat} {next : RatchetState S} (jump : Jumped base d mid from_ until_ next)
    {m : UInt32} (apart : from_ ≤ m.toNat → until_ ≤ m.toNat) :
    next.skippedKeys.lookup (skippedKeyId d m) = mid.skippedKeys.lookup (skippedKeyId d m) := by
  apply jump.others
  intro k same
  rw [← (skippedKeyId_inj.mp same).2]
  exact apart

theorem Settled.read_ahead (settled : Settled st d read mid) (receiver : Receiver st d base) (wf : WellFormed mid)
    (ahead : counterAfter st read ≤ n.toNat) (small : n.toNat + 1 < 2 ^ 32)
    (near : n.toNat ≤ st.receivingMsgNumber.toNat + maxSkip.toNat)
    (room : st.skippedKeys.keys.card + (n.toNat - st.receivingMsgNumber.toNat) ≤ maxSkippedKeys) :
    ∃ jumped, Skips mid n jumped ∧ jumped.receivingChainKey = some (chainStep^[n.toNat] base) ∧
      Settled st d (insert n read) (received jumped (chainStep^[n.toNat] base)) := by
  have start := le_counterAfter st read
  obtain ⟨jumped, skips, number, moved, jump⟩ := settled.jump receiver wf ahead near room
  have counter' : counterAfter st (insert n read) = n.toNat + 1 := by
    rw [counterAfter_insert]
    exact max_eq_left (by omega)
  refine ⟨jumped, skips, moved, ?_, ?_, ?_, ?_, ?_, ?_, ?_⟩
  · change received jumped _ = withBankOf { withBankOf
      { st with receivingMsgNumber := mid.receivingMsgNumber, receivingChainKey := mid.receivingChainKey } mid with
        receivingMsgNumber := (received jumped (chainStep^[n.toNat] base)).receivingMsgNumber
        receivingChainKey := (received jumped (chainStep^[n.toNat] base)).receivingChainKey } (received jumped _)
    rw [← settled.frame]
    exact congrArg (fun state => received state (chainStep^[n.toNat] base)) (skips_frame skips)
  · rw [counter', received]
    dsimp only
    rw [number]
    exact toNat_succ small
  · have count : n.toNat + 1 - st.receivingMsgNumber.toNat = (n.toNat - st.receivingMsgNumber.toNat) + 1 := by omega
    rw [counter', receiver.chain, Option.map_some, count, Function.iterate_succ_apply', ← Function.iterate_add_apply,
      Nat.sub_add_cancel (by omega)]
    rfl
  · rw [counter', settled.order_ahead receiver wf ahead]
    exact jump.order
  · intro m present
    rw [← Finmap.lookup_eq_none]
    rcases Finset.mem_insert.mp present with rfl | before
    · exact (jump.outside fun _ => le_refl _).trans (Finmap.lookup_eq_none.mpr (settled.ahead_free receiver ahead))
    · have below := lt_counterAfter st before
      exact (jump.outside fun least => by omega).trans (Finmap.lookup_eq_none.mpr (settled.used m before))
  · intro m absent least below
    rw [Finset.mem_insert, not_or] at absent
    rw [counter'] at below
    have different : m.toNat ≠ n.toNat := fun same => absent.1 (UInt32.toNat_inj.mp same)
    have atLeast := UInt32.le_iff_toNat_le.mp least
    have key : (st.receivingChainKey.map fun ck => messageKeyAt ck (m.toNat - st.receivingMsgNumber.toNat)) =
        some (messageKeyAt base m.toNat) := by
      rw [receiver.chain, Option.map_some, messageKeyAt, messageKeyAt, ← Function.iterate_add_apply,
        Nat.sub_add_cancel atLeast]
    by_cases old : m.toNat < counterAfter st read
    · exact (jump.outside fun late => by omega).trans (settled.skipped m absent.2 least old)
    · rw [key]
      exact jump.added m (by omega) (by omega)
  · intro keyId outside
    have kept : ∀ m, keyId = skippedKeyId d m →
        m ∉ read ∧ (st.receivingMsgNumber ≤ m → n.toNat + 1 ≤ m.toNat) := by
      intro m same
      obtain ⟨absent, beyond⟩ := outside m same
      rw [counter'] at beyond
      exact ⟨fun present => absent (Finset.mem_insert_of_mem present), beyond⟩
    refine (jump.others keyId ?_).trans (settled.kept keyId ?_)
    · intro m same least
      have beyond := (kept m same).2 (UInt32.le_iff_toNat_le.mpr (by omega))
      omega
    · intro m same
      refine ⟨(kept m same).1, fun least => ?_⟩
      have beyond := (kept m same).2 least
      omega

/-- A message that `st` can read: its key is banked, or its number is ahead and within the limit. -/
structure Readable (st : RatchetState S) (d : Bytes32) (base : S) (msg : EncryptedMessage) (ad pt : Bytes) : Prop where
  decoded : decode32 msg.header.dhPub = .ok d
  small : msg.header.n.toNat + 1 < 2 ^ 32
  source : (∃ mk, st.skippedKeys.lookup (skippedKeyId d msg.header.n) = some mk ∧ openMessage mk msg ad = .ok pt) ∨
    (st.receivingMsgNumber ≤ msg.header.n ∧ msg.header.n.toNat ≤ st.receivingMsgNumber.toNat + maxSkip.toNat ∧
      openMessage (messageKeyAt base msg.header.n.toNat) msg ad = .ok pt)

theorem Settled.read_passed {msg : EncryptedMessage} {ad pt : Bytes} (settled : Settled st d read mid)
    (receiver : Receiver st d base) (readable : Readable st d base msg ad pt) (unread : msg.header.n ∉ read)
    (passed : msg.header.n.toNat < counterAfter st read) (rng : StepRandom S) :
    ratchetDecrypt mid msg ad rng = (.ok pt, consumed mid (skippedKeyId d msg.header.n)) := by
  obtain ⟨mk, banked, opens⟩ : ∃ mk, mid.skippedKeys.lookup (skippedKeyId d msg.header.n) = some mk ∧
      openMessage mk msg ad = .ok pt := by
    rcases readable.source with ⟨mk, old, opens⟩ | ⟨ahead, _, opens⟩
    · refine ⟨mk, (settled.kept _ ?_).trans old, opens⟩
      intro m same
      obtain rfl := (skippedKeyId_inj.mp same).2
      refine ⟨unread, fun ahead => ?_⟩
      exact absurd (Finmap.mem_of_lookup_eq_some old) (receiver.ahead _ ahead)
    · refine ⟨_, ?_, opens⟩
      rw [settled.skipped _ unread ahead passed, receiver.chain, Option.map_some, messageKeyAt, messageKeyAt,
        ← Function.iterate_add_apply, Nat.sub_add_cancel (UInt32.le_iff_toNat_le.mp ahead)]
  exact (ratchetDecrypt_ok_iff readable.decoded).mpr (Or.inl ⟨mk, banked, opens, rfl⟩)

theorem Settled.deliver {msg : EncryptedMessage} {ad pt : Bytes} (settled : Settled st d read mid)
    (receiver : Receiver st d base) (wf : WellFormed mid) (readable : Readable st d base msg ad pt)
    (unread : msg.header.n ∉ read)
    (room : st.skippedKeys.keys.card + (msg.header.n.toNat - st.receivingMsgNumber.toNat) ≤ maxSkippedKeys)
    (rng : StepRandom S) : Settled st d (insert msg.header.n read) (ratchetDecrypt mid msg ad rng).2 := by
  by_cases passed : msg.header.n.toNat < counterAfter st read
  · rw [settled.read_passed receiver readable unread passed rng]
    exact settled.read_banked passed
  · have ahead := Nat.le_of_not_lt passed
    have start := le_counterAfter st read
    obtain ⟨near, opens⟩ : msg.header.n.toNat ≤ st.receivingMsgNumber.toNat + maxSkip.toNat ∧
        openMessage (messageKeyAt base msg.header.n.toNat) msg ad = .ok pt := by
      rcases readable.source with ⟨mk, old, _⟩ | ⟨_, near, opens⟩
      · have least : st.receivingMsgNumber ≤ msg.header.n := UInt32.le_iff_toNat_le.mpr (by omega)
        exact absurd (Finmap.mem_of_lookup_eq_some old) (receiver.ahead _ least)
      · exact ⟨near, opens⟩
    obtain ⟨jumped, skips, chain, settled'⟩ := settled.read_ahead receiver wf ahead readable.small near room
    have dhr : mid.dhr = some d := (congrArg RatchetState.dhr settled.frame :).trans receiver.dhr
    have fresh : ¬IsReplay mid d msg.header.n := by
      intro either
      rcases either with retired | ⟨_, behind⟩
      · rw [show mid.retiredPeerDhKeys = st.retiredPeerDhKeys from (congrArg RatchetState.retiredPeerDhKeys settled.frame :)]
          at retired
        exact receiver.current retired
      · have less := UInt32.lt_iff_toNat_lt.mp behind
        rw [settled.counter] at less
        omega
    have accepted : ratchetDecrypt mid msg ad rng = (.ok pt, received jumped (chainStep^[msg.header.n.toNat] base)) :=
      (ratchetDecrypt_ok_iff readable.decoded).mpr (Or.inr ⟨Finmap.lookup_eq_none.mpr (settled.ahead_free receiver ahead),
        fresh, jumped, _, Or.inl ⟨dhr, skips⟩, chain, opens, rfl⟩)
    rw [accepted]
    exact settled'

def numbersOf (batch : List (Delivery S)) : Finset UInt32 := (batch.map Delivery.number).toFinset

theorem Settled.deliverAll (receiver : Receiver st d base) {batch : List (Delivery S)}
    (readable : ∀ m ∈ batch, ∃ pt, Readable st d base m.message m.associatedData pt)
    (room : ∀ m ∈ batch, st.skippedKeys.keys.card + (m.number.toNat - st.receivingMsgNumber.toNat) ≤ maxSkippedKeys)
    (once : (batch.map Delivery.number).Nodup) (settled : Settled st d read mid) (wf : WellFormed mid)
    (unread : ∀ m ∈ batch, m.number ∉ read) :
    Settled st d (numbersOf batch ∪ read) (TrinoCore.deliverAll mid batch) := by
  induction batch generalizing read mid with
  | nil =>
    rw [show numbersOf ([] : List (Delivery S)) = ∅ from rfl, Finset.empty_union]
    exact settled
  | cons m rest ih =>
    obtain ⟨pt, first⟩ := readable m List.mem_cons_self
    rw [List.map_cons, List.nodup_cons] at once
    have one := settled.deliver receiver wf first (unread m List.mem_cons_self) (room m List.mem_cons_self) m.rng
    have wf' := (call_wellFormed wf (.decrypt m.message m.associatedData m.rng)).1
    have later := ih (fun other present => readable other (List.mem_cons_of_mem _ present))
      (fun other present => room other (List.mem_cons_of_mem _ present)) once.2 one wf' (by
        intro other present again
        rcases Finset.mem_insert.mp again with same | before
        · exact once.1 (List.mem_map.mpr ⟨other, present, same⟩)
        · exact unread other (List.mem_cons_of_mem _ present) before)
    have all : numbersOf (m :: rest) ∪ read = numbersOf rest ∪ insert m.message.header.n read := by
      unfold numbersOf
      rw [List.map_cons, List.toFinset_cons, Finset.insert_union, Finset.union_insert]
      rfl
    rw [all]
    exact later

theorem Receiver.counterAfter_banked (receiver : Receiver st d base) {batch : List (Delivery S)}
    (banked : ∀ m ∈ batch, skippedKeyId d m.number ∈ st.skippedKeys) :
    counterAfter st (numbersOf batch) = st.receivingMsgNumber.toNat := by
  apply Nat.max_eq_left
  apply Finset.sup_le
  intro n present
  obtain ⟨m, inside, rfl⟩ := List.mem_map.mp (List.mem_toFinset.mp present)
  by_contra ahead
  exact receiver.ahead m.number (UInt32.le_iff_toNat_le.mpr (by omega)) (banked m inside)

/-! ### In a session -/

/-- A message of the peer on the receiver's current chain whose key is banked or within the limit. -/
structure Deliverable (s : Session S) (p : Party) (d : Bytes32) (m : Delivery S) : Prop where
  sent : ∃ key pt, Entry.encrypted p.peer key pt m.associatedData (.ok m.message) ∈ s.history
  chain : decode32 m.message.header.dhPub = .ok d
  near : skippedKeyId d m.number ∈ (s.state p).skippedKeys ∨
    ((s.state p).receivingMsgNumber ≤ m.number ∧
      m.number.toNat ≤ (s.state p).receivingMsgNumber.toNat + maxSkip.toNat)

omit [Primitives S] in
theorem Deliverable.congr {s : Session S} {p : Party} {m m' : Delivery S} (deliverable : Deliverable s p d m)
    (message : m.message = m'.message) (ad : m.associatedData = m'.associatedData) : Deliverable s p d m' := by
  obtain ⟨sent, chain, near⟩ := deliverable
  unfold Delivery.number at near
  rw [message] at sent chain near
  rw [ad] at sent
  exact ⟨sent, chain, near⟩

section
variable {masterSecret : S} {T : Timeline S} {s : Session S} {p : Party}

theorem Inv.on_chain (correct : Correct S) (inv : Inv masterSecret T s) (current : (s.state p).dhr = some d)
    {m : Delivery S} (deliverable : Deliverable s p d m) :
    2 ≤ T.level p ∧ d = T.pub (T.level p - 1) ∧ m.number.toNat < T.count (T.level p - 1) ∧
      ∃ pt, openMessage (T.messageKey (T.level p - 1) m.number.toNat) m.message m.associatedData = .ok pt := by
  obtain ⟨key, pt, sent⟩ := deliverable.sent
  have level := T.level_le p
  have peer := (inv.party p).tracks.dhr
  rcases inv.sent _ _ _ _ _ sent with ⟨_, e, absurd⟩ | ⟨j, n, _, positive, inside, below, _, message⟩
  · cases absurd
  have counted := T.count_lt j
  obtain ⟨decoded, opens⟩ := (message _ rfl).opens correct
  have pub : d = T.pub j := Except.ok.inj (deliverable.chain.symm.trans decoded)
  have number : m.number.toNat = n := by
    obtain ⟨nonce, ct, same, _⟩ := message _ rfl
    rw [Delivery.number, same]
    exact toNat_ofNat (by omega)
  rw [current] at peer
  split at peer
  · cases peer
  · obtain rfl : j = T.level p - 1 :=
      T.distinct j inside (T.level p - 1) (by omega) (pub.symm.trans (Option.some.inj peer))
    rw [number]
    exact ⟨by omega, pub, below, pt, opens⟩

theorem Inv.receiver (inv : Inv masterSecret T s) (started : 2 ≤ T.level p) :
    Receiver (s.state p) (T.pub (T.level p - 1)) (T.chain (T.level p - 1)) := by
  have own := inv.party p
  have level := T.level_le p
  have dhr : (s.state p).dhr = some (T.pub (T.level p - 1)) := by
    rw [own.tracks.dhr, if_neg (by omega)]
  refine ⟨dhr, own.peers.current_not_retired dhr, ?_, own.receives.wellFormed, ?_⟩
  · rw [own.tracks.receiving, if_neg (by omega)]
  · intro n ahead banked
    obtain ⟨mk, found⟩ := Finmap.mem_iff.mp banked
    obtain ⟨j, m, passed, same, _⟩ := own.receives.banked _ mk found
    obtain ⟨small, below⟩ := passed.lt
    obtain ⟨keys, numbers⟩ := skippedKeyId_inj.mp same
    obtain rfl := T.distinct _ (by omega) j (by omega) keys
    have value : n.toNat = m := by
      rw [numbers]
      exact toNat_ofNat small
    have least := UInt32.le_iff_toNat_le.mp ahead
    obtain ⟨_, ⟨old, _⟩ | ⟨_, behind⟩⟩ := passed
    · omega
    · omega

theorem Inv.readable (correct : Correct S) (inv : Inv masterSecret T s) (current : (s.state p).dhr = some d)
    {m : Delivery S} (deliverable : Deliverable s p d m) :
    ∃ pt, Readable (s.state p) d (T.chain (T.level p - 1)) m.message m.associatedData pt := by
  obtain ⟨started, rfl, below, pt, opens⟩ := inv.on_chain correct current deliverable
  have counted := T.count_lt (T.level p - 1)
  have level := T.level_le p
  refine ⟨pt, deliverable.chain, ?_, ?_⟩
  · change m.number.toNat + 1 < 2 ^ 32
    omega
  · rcases deliverable.near with banked | ⟨ahead, near⟩
    · obtain ⟨mk, found⟩ := Finmap.mem_iff.mp banked
      obtain ⟨j, n, passed, same, rfl⟩ := (inv.party p).receives.banked _ mk found
      obtain ⟨small, before⟩ := passed.lt
      obtain ⟨keys, numbers⟩ := skippedKeyId_inj.mp same
      obtain rfl := T.distinct _ (by omega) j (by omega) keys
      have value : m.number.toNat = n := by
        rw [numbers]
        exact toNat_ofNat small
      rw [value] at opens
      exact Or.inl ⟨_, found, opens⟩
    · exact Or.inr ⟨ahead, near, opens⟩

theorem Inv.number_inj (inv : Inv masterSecret T s) {m m' : Delivery S} (mine : Deliverable s p d m)
    (yours : Deliverable s p d m') (same : m.number = m'.number) : m.message = m'.message := by
  obtain ⟨_, _, sent⟩ := mine.sent
  obtain ⟨_, _, sent'⟩ := yours.sent
  apply (inv.sent_once sent sent' _).1
  unfold bankIdOf
  rw [mine.chain, yours.chain]
  exact congrArg (fun n => some (skippedKeyId d n)) same

theorem Inv.numbers_nodup (inv : Inv masterSecret T s) {batch : List (Delivery S)}
    (deliverable : ∀ m ∈ batch, Deliverable s p d m) (once : (batch.map Delivery.message).Nodup) :
    (batch.map Delivery.number).Nodup := by
  have nodup := once.of_map
  refine nodup.map_on ?_
  intro m present m' present' same
  exact List.inj_on_of_nodup_map once present present'
    (inv.number_inj (deliverable m present) (deliverable m' present') same)

end

/-- The state a receiver ends in is that of `Settled`, which speaks of the set of messages read and not
of their order; so any other order of the same messages ends in the same state. -/
theorem receiver_order_independent (ideal : Ideal S) {masterSecret : S} {s : Session S}
    (reached : Reachable Genuine masterSecret s) {p : Party} {d : Bytes32} (current : (s.state p).dhr = some d)
    {batch : List (Delivery S)} (deliverable : ∀ m ∈ batch, Deliverable s p d m)
    (once : (batch.map Delivery.message).Nodup)
    (room : ∀ m ∈ batch, (s.state p).skippedKeys.keys.card +
      (m.number.toNat - (s.state p).receivingMsgNumber.toNat) ≤ maxSkippedKeys) :
    Settled (s.state p) d (numbersOf batch) (deliverAll (s.state p) batch) ∧
      ((∀ m ∈ batch, skippedKeyId d m.number ∈ (s.state p).skippedKeys) →
        (deliverAll (s.state p) batch).receivingMsgNumber = (s.state p).receivingMsgNumber) ∧
      ∀ order : List (Delivery S), (order.map fun m => (m.message, m.associatedData)).Perm
        (batch.map fun m => (m.message, m.associatedData)) →
        deliverAll (s.state p) order = deliverAll (s.state p) batch := by
  obtain ⟨T, inv⟩ := genuine_inv ideal reached
  -- what holds of the batch holds of each of its orders, since nothing but the messages matters
  have settles : ∀ order : List (Delivery S), (order.map fun m => (m.message, m.associatedData)).Perm
      (batch.map fun m => (m.message, m.associatedData)) →
      Settled (s.state p) d (numbersOf batch) (deliverAll (s.state p) order) := by
    intro order same
    have member : ∀ m ∈ order, ∃ m' ∈ batch, m'.message = m.message ∧ m'.associatedData = m.associatedData := by
      intro m present
      obtain ⟨m', present', equal⟩ := List.mem_map.mp (same.mem_iff.mp (List.mem_map.mpr ⟨m, present, rfl⟩))
      exact ⟨m', present', congrArg Prod.fst equal, congrArg Prod.snd equal⟩
    have deliverable' : ∀ m ∈ order, Deliverable s p d m := by
      intro m present
      obtain ⟨m', present', message, ad⟩ := member m present
      exact (deliverable m' present').congr message ad
    have messages : (order.map Delivery.message).Perm (batch.map Delivery.message) := by
      have mapped := same.map Prod.fst
      rw [List.map_map, List.map_map] at mapped
      exact mapped
    have numbers : numbersOf order = numbersOf batch := by
      have mapped := messages.map fun msg => msg.header.n
      rw [List.map_map, List.map_map] at mapped
      exact List.toFinset_eq_of_perm _ _ mapped
    have once' := inv.numbers_nodup deliverable' (messages.nodup_iff.mpr once)
    rw [← numbers, ← Finset.union_empty (numbersOf order)]
    cases order with
    | nil => exact Settled.refl
    | cons first rest =>
      obtain ⟨started, rfl, _⟩ := inv.on_chain ideal.toCorrect current (deliverable' first List.mem_cons_self)
      apply Settled.deliverAll (inv.receiver started) _ _ once' Settled.refl (inv.party p).receives.wellFormed
      · intro m _
        exact Finset.notMem_empty _
      · intro m present
        exact inv.readable ideal.toCorrect current (deliverable' m present)
      · intro m present
        obtain ⟨m', present', message, _⟩ := member m present
        rw [Delivery.number, ← message]
        exact room m' present'
  have settled := settles batch (List.Perm.refl _)
  refine ⟨settled, fun banked => ?_, fun order same => (settles order same).unique settled⟩
  cases batch with
  | nil => rfl
  | cons first rest =>
    obtain ⟨started, rfl, _⟩ := inv.on_chain ideal.toCorrect current (deliverable first List.mem_cons_self)
    apply UInt32.toNat_inj.mp
    rw [settled.counter]
    exact (inv.receiver started).counterAfter_banked banked

theorem encrypt_sends {s : Session FreeKey} {p : Party} {ck : FreeKey}
    (sending : (s.state p).sendingChainKey = some ck) (pt ad : Bytes) (nonce : Nonce) :
    ∃ key msg, (s.encrypt p pt ad nonce).history = s.history ++ [.encrypted p key pt ad (.ok msg)] ∧
      msg.header = nextHeader (s.state p) ∧
      (s.encrypt p pt ad nonce).state = Function.update s.state p (afterSend (s.state p) ck) := by
  have outcome := ratchetEncrypt_some sending pt ad nonce
  obtain ⟨ct, sealed⟩ : ∃ ct, aeadSeal (messageKeyOf ck) nonce pt (headerAd ad (s.state p).dhs.pubBytes
      (s.state p).previousSendingChainLength (s.state p).sendingMsgNumber) = some ct := ⟨_, rfl⟩
  rw [sealed] at outcome
  refine ⟨Session.sendingKey (s.state p), ⟨nextHeader (s.state p), Hex.encode nonce.toList, Hex.encode ct⟩, ?_, rfl, ?_⟩
  · unfold Session.encrypt
    rw [outcome]
  · unfold Session.encrypt
    rw [outcome]

def twoMore (s : Session FreeKey) : Session FreeKey :=
  (s.encrypt .initiator [8] [] (sampleBytes 12 1)).encrypt .initiator [9] [] (sampleBytes 12 2)

theorem twoMore_deliverable {s : Session FreeKey} {ck : FreeKey} (sending : (s.state .initiator).sendingChainKey = some ck)
    (number : (s.state .initiator).sendingMsgNumber = 1) (own : (s.state .initiator).dhs.pubBytes = d)
    (counter : (s.state .responder).receivingMsgNumber = 1) (rng : StepRandom FreeKey) :
    ((s.encrypt .initiator [8] [] (sampleBytes 12 1)).state .initiator).sendingMsgNumber = 2 ∧
    (twoMore s).state .responder = s.state .responder ∧
    ∃ first second : EncryptedMessage, first.header.n = 1 ∧ second.header.n = 2 ∧
      Deliverable (twoMore s) .responder d ⟨first, [], rng⟩ ∧ Deliverable (twoMore s) .responder d ⟨second, [], rng⟩ := by
  obtain ⟨key, first, history, header, state⟩ := encrypt_sends sending [8] [] (sampleBytes 12 1)
  have moved : (s.encrypt .initiator [8] [] (sampleBytes 12 1)).state .initiator = afterSend (s.state .initiator) ck := by
    rw [state, Function.update_self]
  obtain ⟨key', second, history', header', state'⟩ := encrypt_sends
    (s := s.encrypt .initiator [8] [] (sampleBytes 12 1)) (congrArg RatchetState.sendingChainKey moved :) [9] []
    (sampleBytes 12 2)
  have untouched : (twoMore s).state .responder = s.state .responder := by
    unfold twoMore
    rw [state', Function.update_of_ne (by decide), state, Function.update_of_ne (by decide)]
  rw [moved] at header'
  have two : (afterSend (s.state .initiator) ck).sendingMsgNumber = 2 := by
    change (s.state .initiator).sendingMsgNumber + 1 = 2
    rw [number]
    decide
  have n : first.header.n = 1 := by rw [header]; exact number
  have n' : second.header.n = 2 := by rw [header']; exact two
  have chain : decode32 first.header.dhPub = .ok d := by
    rw [header, ← own]
    exact decode32_encode _
  have chain' : decode32 second.header.dhPub = .ok d := by
    rw [header', ← own]
    exact decode32_encode _
  have entries : (twoMore s).history = s.history ++ [.encrypted .initiator key [8] [] (.ok first)] ++
      [.encrypted .initiator key' [9] [] (.ok second)] := by
    unfold twoMore
    rw [history', history]
  refine ⟨by rw [moved, two], untouched, first, second, n, n', ⟨⟨key, [8], ?_⟩, chain, Or.inr ?_⟩, ⟨⟨key', [9], ?_⟩, chain', Or.inr ?_⟩⟩
  · rw [entries]
    simp [Party.peer]
  · rw [untouched, counter]
    change 1 ≤ first.header.n ∧ first.header.n.toNat ≤ _
    rw [n]
    decide
  · rw [entries]
    simp [Party.peer]
  · rw [untouched, counter]
    change 1 ≤ second.header.n ∧ second.header.n.toNat ≤ _
    rw [n']
    decide

theorem sampleRead_initiator : ∃ ck, (sampleRead.state .initiator).sendingChainKey = some ck ∧
    (sampleRead.state .initiator).sendingMsgNumber = 1 ∧
    (sampleRead.state .initiator).dhs.pubBytes = sampleInitiator.dhs.pubBytes := by
  have sending : (sampleStart.state .initiator).sendingChainKey = some (chainStart sampleMaster
    (x25519 (sampleBytes 32 1) (x25519Pub FreeKey (sampleBytes 32 0)))) := rfl
  obtain ⟨_, _, _, _, state⟩ := encrypt_sends sending [7] [] (sampleBytes 12 0)
  have sent : sampleRead.state .initiator = sampleSent.state .initiator := by
    unfold sampleRead
    exact sampleSent.decrypt_other (by decide) sampleMessage [] (sampleRandom 2)
  unfold sampleSent at sent
  rw [sent, state, Function.update_self]
  exact ⟨_, rfl, rfl, rfl⟩

theorem receiver_order_independent_sample : ∃ first second : Delivery FreeKey, first.number = 1 ∧ second.number = 2 ∧
    deliverAll ((twoMore sampleRead).state .responder) [second, first] =
      deliverAll ((twoMore sampleRead).state .responder) [first, second] := by
  obtain ⟨ck, sending, number, own⟩ := sampleRead_initiator
  obtain ⟨counter, empty⟩ := sampleRead_responder
  obtain ⟨next, untouched, first, second, n, n', deliverable, deliverable'⟩ :=
    twoMore_deliverable sending number own counter (sampleRandom 3)
  have reached : Reachable Genuine sampleMaster (twoMore sampleRead) := by
    refine .encrypt (.encrypt sampleRead_reachable .initiator _ _ _ ?_) .initiator _ _ _ ?_
    · rw [number]
      decide
    · rw [next]
      decide
  refine ⟨⟨first, [], sampleRandom 3⟩, ⟨second, [], sampleRandom 3⟩, n, n', ?_⟩
  have swapped : [(⟨second, [], sampleRandom 3⟩ : Delivery FreeKey), ⟨first, [], sampleRandom 3⟩].Perm
      [⟨first, [], sampleRandom 3⟩, ⟨second, [], sampleRandom 3⟩] := List.Perm.swap _ _ _
  refine (receiver_order_independent freeKey_ideal reached (d := sampleInitiator.dhs.pubBytes) ?_ ?_ ?_ ?_).2.2 _
    (swapped.map _)
  · rw [untouched]
    exact sampleRead_dhr
  · intro m present
    rcases List.mem_pair.mp present with rfl | rfl
    · exact deliverable
    · exact deliverable'
  · rw [List.map_cons, List.map_singleton, List.nodup_cons, List.mem_singleton]
    refine ⟨fun same => ?_, List.nodup_singleton _⟩
    have numbers : first.header.n = second.header.n := congrArg (fun msg => msg.header.n) same
    rw [n, n'] at numbers
    cases numbers
  · have room : ∀ number : UInt32, number.toNat ≤ 2 → (∅ : Finmap fun _ : String => FreeKey).keys.card +
        (number.toNat - (1 : UInt32).toNat) ≤ maxSkippedKeys := by
      intro number small
      unfold maxSkippedKeys
      rw [Finmap.keys_empty, Finset.card_empty]
      omega
    rw [untouched, empty, counter]
    intro m present
    rcases List.mem_pair.mp present with rfl | rfl
    · exact room first.header.n (by rw [n]; decide)
    · exact room second.header.n (by rw [n']; decide)

end TrinoCore
