import TrinoCore.Ratchet.Steps

/-!
The key schedule of a whole session, seen from outside.

The two parties take turns in drawing DH keys. Key 0 is the responder's signed prekey, odd keys are
the initiator's, even ones the responder's. Key `j + 1` meets key `j` in one Diffie-Hellman product,
which moves the root key on and starts the chain that is sent under key `j + 1`.
-/

namespace TrinoCore

inductive Party where
  | initiator
  | responder
  deriving DecidableEq

namespace Party

def peer : Party → Party
  | initiator => responder
  | responder => initiator

def parity : Party → Nat
  | initiator => 1
  | responder => 0

theorem peer_ne (p : Party) : p.peer ≠ p := by cases p <;> decide

theorem eq_or_eq_peer (p q : Party) : q = p ∨ q = p.peer := by cases p <;> cases q <;> decide

theorem parity_lt (p : Party) : p.parity < 2 := by cases p <;> decide

theorem parity_inj {p q : Party} (same : p.parity = q.parity) : p = q := by
  cases p <;> cases q <;> first | rfl | cases same

theorem parity_peer (p : Party) : p.peer.parity + p.parity = 1 := by cases p <;> rfl

end Party

variable {S : Type} [Primitives S]

/-- The DH keys drawn so far, up to index `top`, and how many messages were sent under each. -/
structure Timeline (S : Type) [Primitives S] where
  master : S
  priv : Nat → Bytes32
  top : Nat
  count : Nat → Nat
  top_pos : 1 ≤ top
  distinct : ∀ i ≤ top, ∀ j ≤ top, x25519Pub S (priv i) = x25519Pub S (priv j) → i = j
  count_zero : count 0 = 0
  count_beyond : ∀ j, top < j → count j = 0
  count_lt : ∀ j, count j < 2 ^ 32

namespace Timeline

def pub (T : Timeline S) (j : Nat) : Bytes32 := x25519Pub S (T.priv j)

def dh (T : Timeline S) (j : Nat) : S := x25519 (T.priv (j + 1)) (T.pub j)

def root (T : Timeline S) : Nat → S
  | 0 => T.master
  | j + 1 => rootStep (T.root j) (T.dh j)

/-- The chain sent under key `j`. Nothing is sent under key 0. -/
def chain (T : Timeline S) : Nat → S
  | 0 => T.master
  | j + 1 => chainStart (T.root j) (T.dh j)

def messageKey (T : Timeline S) (j n : Nat) : S := messageKeyAt (T.chain j) n

def bankId (T : Timeline S) (j n : Nat) : String := skippedKeyId (T.pub j) (UInt32.ofNat n)

/-- The index of the DH key a party holds. -/
def level (T : Timeline S) (p : Party) : Nat := if T.top % 2 = p.parity then T.top else T.top - 1

theorem level_parity (T : Timeline S) (p : Party) : T.level p % 2 = p.parity := by
  have small := p.parity_lt
  have positive := T.top_pos
  unfold level
  split
  · assumption
  · omega

theorem level_le (T : Timeline S) (p : Party) : T.level p ≤ T.top := by
  unfold level
  split <;> omega

theorem level_peer (T : Timeline S) (p : Party) :
    T.level p.peer = T.level p + 1 ∧ T.top = T.level p + 1 ∨
      T.level p = T.level p.peer + 1 ∧ T.top = T.level p := by
  have both := p.parity_peer
  have positive := T.top_pos
  unfold level
  split <;> split <;> omega

theorem bankId_inj {T : Timeline S} {i j a b : Nat} (hi : i ≤ T.top) (hj : j ≤ T.top) (ha : a < 2 ^ 32)
    (hb : b < 2 ^ 32) (same : T.bankId i a = T.bankId j b) : i = j ∧ a = b := by
  obtain ⟨keys, numbers⟩ := skippedKeyId_inj.mp same
  refine ⟨T.distinct i hi j hj keys, ?_⟩
  have values := congrArg UInt32.toNat numbers
  rwa [toNat_ofNat ha, toNat_ofNat hb] at values

def send (T : Timeline S) (j : Nat) (positive : 1 ≤ j) (inside : j ≤ T.top) (room : T.count j + 1 < 2 ^ 32) :
    Timeline S :=
  { T with
    count := Function.update T.count j (T.count j + 1)
    count_zero := by rw [Function.update_of_ne (by omega)]; exact T.count_zero
    count_beyond := fun i beyond => by rw [Function.update_of_ne (by omega)]; exact T.count_beyond i beyond
    count_lt := fun i => by
      by_cases same : i = j
      · subst i
        rw [Function.update_self]
        exact room
      · rw [Function.update_of_ne same]
        exact T.count_lt i }

/-! ### One more key -/

def extend (T : Timeline S) (fresh : Bytes32) (new : ∀ j ≤ T.top, T.pub j ≠ x25519Pub S fresh) : Timeline S :=
  { T with
    priv := Function.update T.priv (T.top + 1) fresh
    top := T.top + 1
    top_pos := by omega
    distinct := by
      intro i hi j hj same
      by_cases lastI : i = T.top + 1 <;> by_cases lastJ : j = T.top + 1
      · rw [lastI, lastJ]
      · rw [lastI, Function.update_self, Function.update_of_ne lastJ] at same
        exact (new j (by omega) same.symm).elim
      · rw [lastJ, Function.update_self, Function.update_of_ne lastI] at same
        exact (new i (by omega) same).elim
      · rw [Function.update_of_ne lastI, Function.update_of_ne lastJ] at same
        exact T.distinct i (by omega) j (by omega) same
    count_beyond := fun j beyond => T.count_beyond j (by omega) }

/-- `T'` continues `T`: the same keys, at least as many messages, and none added to a chain that both
parties have left. -/
structure Later (T T' : Timeline S) : Prop where
  master : T'.master = T.master
  keys : ∀ i ≤ T.top, T'.priv i = T.priv i
  top : T.top ≤ T'.top
  grows : ∀ j, T.count j ≤ T'.count j
  settled : ∀ j, j + 1 < T.top → T'.count j = T.count j

theorem Later.refl (T : Timeline S) : T.Later T :=
  ⟨rfl, fun _ _ => rfl, le_refl _, fun _ => le_refl _, fun _ _ => rfl⟩

theorem later_send {T : Timeline S} {j : Nat} {positive : 1 ≤ j} {inside : j ≤ T.top}
    {room : T.count j + 1 < 2 ^ 32} (current : T.top ≤ j + 1) : T.Later (T.send j positive inside room) := by
  refine ⟨rfl, fun _ _ => rfl, le_refl _, fun i => ?_, fun i old => Function.update_of_ne (by omega) _ _⟩
  change T.count i ≤ Function.update T.count j (T.count j + 1) i
  by_cases same : i = j
  · subst i
    rw [Function.update_self]
    omega
  · rw [Function.update_of_ne same]

theorem later_extend {T : Timeline S} {fresh : Bytes32} {new : ∀ j ≤ T.top, T.pub j ≠ x25519Pub S fresh} :
    T.Later (T.extend fresh new) :=
  ⟨rfl, fun _ old => Function.update_of_ne (by omega) _ _, Nat.le_succ _, fun _ => le_refl _, fun _ _ => rfl⟩

section
variable {T T' : Timeline S} (later : T.Later T') {j : Nat}
include later

theorem Later.pub (old : j ≤ T.top) : T'.pub j = T.pub j := congrArg (x25519Pub S) (later.keys j old)

theorem Later.dh (old : j < T.top) : T'.dh j = T.dh j := by
  rw [Timeline.dh, Timeline.dh, later.pub (by omega), later.keys (j + 1) old]

theorem Later.root (old : j ≤ T.top) : T'.root j = T.root j := by
  induction j with
  | zero => exact later.master
  | succ j ih => rw [Timeline.root, Timeline.root, ih (by omega), later.dh old]

theorem Later.chain (old : j ≤ T.top) : T'.chain j = T.chain j := by
  cases j with
  | zero => exact later.master
  | succ j => rw [Timeline.chain, Timeline.chain, later.root (by omega), later.dh old]

theorem Later.messageKey (old : j ≤ T.top) (n : Nat) : T'.messageKey j n = T.messageKey j n := by
  rw [Timeline.messageKey, Timeline.messageKey, later.chain old]

theorem Later.bankId (old : j ≤ T.top) (n : Nat) : T'.bankId j n = T.bankId j n := by
  rw [Timeline.bankId, Timeline.bankId, later.pub old]

theorem Later.previous (old : j ≤ T.top) : T'.count (j - 2) = T.count (j - 2) := by
  by_cases first : j < 2
  · have none_before : j - 2 = 0 := by omega
    rw [none_before, T.count_zero, T'.count_zero]
  · exact later.settled (j - 2) (by omega)

end

theorem extend_pub {T : Timeline S} {fresh : Bytes32} {new : ∀ j ≤ T.top, T.pub j ≠ x25519Pub S fresh} :
    (T.extend fresh new).pub (T.top + 1) = x25519Pub S fresh :=
  congrArg (x25519Pub S) (Function.update_self _ _ _)

theorem extend_known {T : Timeline S} {fresh : Bytes32} {new : ∀ j ≤ T.top, T.pub j ≠ x25519Pub S fresh}
    {keys : List Bytes32} (known : ∀ j ≤ T.top, T.pub j ∈ keys) :
    ∀ j ≤ (T.extend fresh new).top, (T.extend fresh new).pub j ∈ keys ++ [x25519Pub S fresh] := by
  intro j inside
  rcases Nat.lt_or_ge T.top j with newest | old
  · have top : j = T.top + 1 := le_antisymm inside newest
    rw [top, extend_pub]
    exact List.mem_append_right _ (List.mem_singleton.mpr rfl)
  · rw [later_extend.pub old]
    exact List.mem_append_left _ (known j old)

/-- The party whose key is last keeps its key; the other one takes the new one. -/
theorem extend_level {T : Timeline S} {fresh : Bytes32} {new : ∀ j ≤ T.top, T.pub j ≠ x25519Pub S fresh}
    (p : Party) :
    (T.extend fresh new).level p = if T.top = T.level p then T.level p else T.level p + 2 := by
  have small := p.parity_lt
  have positive := T.top_pos
  have shape : (T.extend fresh new).level p = if (T.top + 1) % 2 = p.parity then T.top + 1 else T.top := rfl
  rw [shape]
  unfold level
  split <;> split <;> split <;> omega

theorem extend_behind {T : Timeline S} (fresh : Bytes32) (new : ∀ j ≤ T.top, T.pub j ≠ x25519Pub S fresh) {p : Party}
    (behind : T.top = T.level p + 1) :
    (T.extend fresh new).level p = T.level p + 2 ∧ (T.extend fresh new).level p.peer = T.level p.peer := by
  have neighbours := T.level_peer p
  constructor
  · rw [extend_level, if_neg (by omega)]
  · rw [extend_level, if_pos (by omega)]

end Timeline

/-! ### Keys are never derived twice -/

section
variable (ideal : Ideal S)
include ideal

theorem messageKeyOf_inj {ck ck' : S} (same : messageKeyOf ck = messageKeyOf ck') : ck = ck' := by
  obtain ⟨keys, _⟩ := ideal.hkdf_inj same
  exact List.singleton_inj.mp keys

theorem chainStep_inj {ck ck' : S} (same : chainStep ck = chainStep ck') : ck = ck' := by
  obtain ⟨keys, _⟩ := ideal.hkdf_inj same
  exact List.singleton_inj.mp keys

theorem chainStart_inj {rk rk' dhOut dhOut' : S} (same : chainStart rk dhOut = chainStart rk' dhOut') :
    rk = rk' ∧ dhOut = dhOut' := by
  obtain ⟨keys, salts, _⟩ := ideal.hkdf_inj same
  exact ⟨salts, List.singleton_inj.mp keys⟩

theorem chainStep_ne_chainStart (ck rk dhOut : S) : chainStep ck ≠ chainStart rk dhOut := by
  intro same
  obtain ⟨_, _, labels, _⟩ := ideal.hkdf_inj same
  exact absurd (utf8_inj.mp labels) (by decide)

theorem messageKeyOf_ne_chainStep (ck ck' : S) : messageKeyOf ck ≠ chainStep ck' := by
  intro same
  obtain ⟨_, _, labels, _⟩ := ideal.hkdf_inj same
  exact absurd (utf8_inj.mp labels) (by decide)

theorem messageKeyOf_ne_chainStart (ck rk dhOut : S) : messageKeyOf ck ≠ chainStart rk dhOut := by
  intro same
  obtain ⟨_, _, labels, _⟩ := ideal.hkdf_inj same
  exact absurd (utf8_inj.mp labels) (by decide)

theorem chain_position_inj {rk rk' dhOut dhOut' : S} {a b : Nat}
    (same : chainStep^[a] (chainStart rk dhOut) = chainStep^[b] (chainStart rk' dhOut')) :
    a = b ∧ rk = rk' := by
  induction a generalizing b with
  | zero =>
    cases b with
    | zero => exact ⟨rfl, (chainStart_inj ideal same).1⟩
    | succ b =>
      rw [Function.iterate_succ_apply'] at same
      exact (chainStep_ne_chainStart ideal _ _ _ same.symm).elim
  | succ a ih =>
    cases b with
    | zero =>
      rw [Function.iterate_succ_apply'] at same
      exact (chainStep_ne_chainStart ideal _ _ _ same).elim
    | succ b =>
      rw [Function.iterate_succ_apply', Function.iterate_succ_apply'] at same
      obtain ⟨numbers, roots⟩ := ih (chainStep_inj ideal same)
      exact ⟨by omega, roots⟩

namespace Timeline

theorem root_injective (T : Timeline S) : Function.Injective T.root := by
  obtain ⟨size, grows⟩ := ideal.hkdf_grows
  have increases : StrictMono (fun j => size (T.root j)) :=
    strictMono_nat_of_lt_succ fun j => (grows [T.dh j] (T.root j) kdfRkInfo 0).1
  intro i j same
  exact increases.injective (congrArg size same)

/-- A message key belongs to one number of one chain. -/
theorem messageKey_inj {T : Timeline S} {rk dhOut : S} {i j a b : Nat} (positive : 1 ≤ j)
    (atRoot : T.root i = rk)
    (same : messageKeyAt (chainStart rk dhOut) a = T.messageKey j b) : j = i + 1 ∧ a = b := by
  obtain ⟨i', rfl⟩ : ∃ i', j = i' + 1 := ⟨j - 1, by omega⟩
  obtain ⟨numbers, roots⟩ := chain_position_inj ideal (messageKeyOf_inj ideal same)
  rw [← atRoot] at roots
  have indices := root_injective ideal T roots
  exact ⟨by omega, numbers⟩

theorem messageKey_injective {T : Timeline S} {i j a b : Nat} (hi : 1 ≤ i) (hj : 1 ≤ j)
    (same : T.messageKey i a = T.messageKey j b) : i = j ∧ a = b := by
  obtain ⟨i', rfl⟩ : ∃ i', i = i' + 1 := ⟨i - 1, by omega⟩
  obtain ⟨indices, numbers⟩ := messageKey_inj ideal hj (rfl : T.root i' = T.root i') same
  exact ⟨indices.symm, numbers⟩

end Timeline
end
end TrinoCore
