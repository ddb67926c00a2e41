import Mathlib.Data.List.Lex
import TrinoCore.Lib.Deduction
import TrinoCore.Symbolic

/-!
What an attacker can compute who holds some private DH keys and knows some secret values.

The rules are those of the algorithms: a DH product takes one of its two private keys, an HKDF block all of
its inputs. Public keys are not multiplied, so these results say most where no product is known by itself; the
program hashes each product and keeps none. What honest sides agree on uses `InjectiveDh` only.
-/

namespace TrinoCore

open Deduction

section
variable {S : Type} [Primitives S]

variable (S) in
/-- Public keys that have the same product with every private key. X25519 ignores the top bit of a public key
and what lies outside of the group of prime order. -/
def SamePoint (p q : Bytes32) : Prop := ∀ ourPriv : Bytes32, x25519 (S := S) ourPriv p = x25519 ourPriv q

variable (S) in
/-- The private half of this public key is held, in whatever form: `holds` names public keys, and the halves of
keys with the same products are not told apart. -/
def HoldsKey (holds : Bytes32 → Prop) (pub : Bytes32) : Prop := ∃ own, holds own ∧ SamePoint S own pub

inductive KeyRule (holds : Bytes32 → Prop) : Set S → S → Prop
  | dh {ourPriv peerPub : Bytes32} (held : HoldsKey S holds (x25519Pub S ourPriv) ∨ HoldsKey S holds peerPub) :
      KeyRule holds ∅ (x25519 ourPriv peerPub)
  | hkdf (ikm : List S) (salt : S) (info : Bytes) (block : Nat) :
      KeyRule holds {key | key ∈ salt :: ikm} (hkdfBlock ikm salt info block)

/-- The values that can be computed from those known and the private keys held. -/
abbrev Learns (holds : Bytes32 → Prop) (known : Set S) : S → Prop := Derives (KeyRule holds) known

/-- The value was computed from `source`, possibly through other values. -/
abbrev DerivedFrom (source : S) : S → Prop := Descends (KeyRule fun _ => False) source

/-- The idealised primitives, where a private key is invertible: its product tells the public keys apart, up to
those that no private key tells apart. -/
structure InjectiveDh (S : Type) [Primitives S] : Prop extends Ideal S where
  x25519_inj : ∀ {a p q : Bytes32}, wasContributory S a p = true → x25519 (S := S) a p = x25519 a q → SamePoint S p q

/-- The idealised primitives with free DH products: a contributory product is made from its two keys only, is
never an output of HKDF, and neither is the constant salt. Keys that were generated have one encoding. -/
structure IdealDh (S : Type) [Primitives S] : Prop extends Ideal S where
  x25519_free : ∀ {a c p q : Bytes32}, wasContributory S a p = true → x25519 (S := S) a p = x25519 c q →
    (SamePoint S (x25519Pub S c) (x25519Pub S a) ∧ SamePoint S q p) ∨
      (SamePoint S (x25519Pub S c) p ∧ SamePoint S q (x25519Pub S a))
  x25519Pub_canonical : ∀ {a b : Bytes32}, SamePoint S (x25519Pub S a) (x25519Pub S b) → x25519Pub S a = x25519Pub S b
  x25519_ne_hkdf : ∀ {a p : Bytes32} {ikm : List S} {salt : S} {info : Bytes} {block : Nat},
    x25519 a p ≠ hkdfBlock ikm salt info block
  zeroSalt_ne_hkdf : ∀ {ikm : List S} {salt : S} {info : Bytes} {block : Nat},
    zeroSalt ≠ hkdfBlock ikm salt info block
  zeroSalt_ne_x25519 : ∀ {a p : Bytes32}, wasContributory S a p = true → zeroSalt ≠ x25519 (S := S) a p

variable {holds : Bytes32 → Prop} {known : Set S}

theorem Learns.hkdf {ikm : List S} {salt : S} (info : Bytes) (block : Nat) (inputs : ∀ key ∈ ikm, Learns holds known key)
    (salted : Learns holds known salt) : Learns holds known (hkdfBlock ikm salt info block) :=
  .infer (.hkdf ikm salt info block) (List.forall_mem_cons.mpr ⟨salted, inputs⟩)

theorem descends_iff_derivedFrom {source key : S} : Descends (KeyRule holds) source key ↔ DerivedFrom source key := by
  constructor
  · intro descends
    induction descends with
    | self => exact .self
    | infer applies premise _ ih =>
      cases applies with
      | dh held => exact absurd premise (Set.notMem_empty _)
      | hkdf ikm salt info block => exact .infer (.hkdf ikm salt info block) premise ih
  · intro derived
    induction derived with
    | self => exact .self
    | infer applies premise _ ih =>
      cases applies with
      | dh held => exact absurd premise (Set.notMem_empty _)
      | hkdf ikm salt info block => exact .infer (.hkdf ikm salt info block) premise ih

theorem DerivedFrom.salt {source salt : S} {ikm : List S} {info : Bytes} {block : Nat} (derived : DerivedFrom source salt) :
    DerivedFrom source (hkdfBlock ikm salt info block) :=
  .infer (.hkdf ikm salt info block) List.mem_cons_self derived

theorem DerivedFrom.input {source key salt : S} {ikm : List S} {info : Bytes} {block : Nat} (present : key ∈ ikm)
    (derived : DerivedFrom source key) : DerivedFrom source (hkdfBlock ikm salt info block) :=
  .infer (.hkdf ikm salt info block) (List.mem_cons_of_mem _ present) derived

/-- What an HKDF block is derived from is the block itself, or something one of its inputs is derived from. -/
theorem derivedFrom_hkdf (ideal : Ideal S) {source salt : S} {ikm : List S} {info : Bytes} {block : Nat}
    (derived : DerivedFrom source (hkdfBlock ikm salt info block)) :
    source = hkdfBlock ikm salt info block ∨ ∃ key ∈ salt :: ikm, DerivedFrom source key := by
  generalize made : hkdfBlock ikm salt info block = key at derived
  cases derived with
  | self => exact Or.inl rfl
  | infer applies premise from_ =>
    cases applies with
    | dh held => exact absurd premise (Set.notMem_empty _)
    | hkdf ikm' salt' info' block' =>
      obtain ⟨rfl, rfl, _, _⟩ := ideal.hkdf_inj made
      exact Or.inr ⟨_, premise, from_⟩

theorem derivedFrom_unmade {source key : S} (unmade : ∀ ikm salt info block, key ≠ hkdfBlock ikm salt info block)
    (derived : DerivedFrom source key) : source = key := by
  cases derived with
  | self => rfl
  | infer applies premise from_ =>
    cases applies with
    | dh held => exact absurd premise (Set.notMem_empty _)
    | hkdf ikm salt info block => exact (unmade ikm salt info block rfl).elim

/-! ### Products -/

theorem SamePoint.symm {p q : Bytes32} (same : SamePoint S p q) : SamePoint S q p := fun ourPriv => (same ourPriv).symm

theorem SamePoint.trans {p q r : Bytes32} (first : SamePoint S p q) (second : SamePoint S q r) : SamePoint S p r :=
  fun ourPriv => (first ourPriv).trans (second ourPriv)

theorem HoldsKey.samePoint {p q : Bytes32} (held : HoldsKey S holds p) (same : SamePoint S p q) : HoldsKey S holds q := by
  obtain ⟨own, given, ownSame⟩ := held
  exact ⟨own, given, ownSame.trans same⟩

/-- Where one's product with a key of `b` is the product of `b` with a key of one's own, either both keys are
the generated ones or neither is. -/
theorem InjectiveDh.crossed_iff (injective : InjectiveDh S) {a b p q : Bytes32} (contributory : wasContributory S a q = true)
    (crossed : x25519 (S := S) a q = x25519 b p) :
    SamePoint S q (x25519Pub S b) ↔ SamePoint S p (x25519Pub S a) := by
  constructor
  · intro straight
    have product : x25519 (S := S) b (x25519Pub S a) = x25519 b p := by
      rw [injective.x25519_comm b a, ← straight a, crossed]
    exact (injective.x25519_inj (injective.contributory b a) product).symm
  · intro straight
    refine injective.x25519_inj contributory ?_
    rw [crossed, straight b, injective.x25519_comm b a]

theorem IdealDh.injective (ideal : IdealDh S) : InjectiveDh S where
  toIdeal := ideal.toIdeal
  x25519_inj contributory same := by
    rcases ideal.x25519_free contributory same with ⟨_, straight⟩ | ⟨own, other⟩
    · exact straight.symm
    · exact own.symm.trans other.symm

/-- A private key, the public key it meets, and what stands in when their product is not contributory. -/
structure Factor (S : Type) where
  ourPriv : Bytes32
  theirPub : Bytes32
  fallback : S

def Factor.shared (f : Factor S) : S := x25519DeriveShared f.ourPriv f.theirPub f.fallback

/-- The product is contributory and one of its two private keys is held. -/
structure Factor.Opened (holds : Bytes32 → Prop) (f : Factor S) : Prop where
  contributory : wasContributory S f.ourPriv f.theirPub = true
  held : HoldsKey S holds (x25519Pub S f.ourPriv) ∨ HoldsKey S holds f.theirPub

/-- Random bytes are what no algorithm puts out. -/
structure Unmade (key : S) : Prop where
  product : ∀ a p, key ≠ x25519 a p
  block : ∀ ikm salt info block, key ≠ hkdfBlock ikm salt info block

theorem Factor.shared_opened {f : Factor S} (opened : f.Opened holds) : f.shared = x25519 f.ourPriv f.theirPub :=
  if_pos opened.contributory

theorem Learns.product {ourPriv peerPub : Bytes32}
    (either : HoldsKey S holds (x25519Pub S ourPriv) ∨ HoldsKey S holds peerPub) :
    Learns holds known (x25519 ourPriv peerPub) :=
  .infer (.dh either) (fun _ absurd => absurd.elim)

theorem Factor.learned {f : Factor S} (opened : f.Opened holds) : Learns holds known f.shared := by
  rw [Factor.shared_opened opened]
  exact .product opened.held

section
variable (ideal : IdealDh S)
include ideal

theorem IdealDh.derivedFrom_product {source : S} {a p : Bytes32} (derived : DerivedFrom source (x25519 a p)) :
    source = x25519 a p :=
  derivedFrom_unmade (fun _ _ _ _ => ideal.x25519_ne_hkdf) derived

theorem IdealDh.not_derivedFrom_zeroSalt {a p : Bytes32} (contributory : wasContributory S a p = true) :
    ¬DerivedFrom (x25519 (S := S) a p) zeroSalt := by
  intro derived
  exact ideal.zeroSalt_ne_x25519 contributory (derivedFrom_unmade (fun _ _ _ _ => ideal.zeroSalt_ne_hkdf) derived).symm

theorem IdealDh.free : Free (KeyRule (S := S) holds) := by
  intro premises premises' x first second
  generalize same : x = y at second
  cases first with
  | dh held =>
    cases second with
    | dh held' => rfl
    | hkdf ikm salt info block => exact (ideal.x25519_ne_hkdf same).elim
  | hkdf ikm salt info block =>
    cases second with
    | dh held => exact (ideal.x25519_ne_hkdf same.symm).elim
    | hkdf ikm' salt' info' block' =>
      obtain ⟨rfl, rfl, _, _⟩ := ideal.hkdf_inj same
      rfl

/-- A contributory product of keys that are not held is made by no rule. -/
theorem IdealDh.product_unmade {ourPriv peerPub : Bytes32} (contributory : wasContributory S ourPriv peerPub = true)
    (neither : ¬(HoldsKey S holds (x25519Pub S ourPriv) ∨ HoldsKey S holds peerPub)) (premises : Set S) :
    ¬KeyRule holds premises (x25519 ourPriv peerPub) := by
  intro applies
  generalize made : x25519 (S := S) ourPriv peerPub = key at applies
  cases applies with
  | @dh ourPriv' peerPub' held =>
    rcases ideal.x25519_free contributory made with ⟨ours, theirs⟩ | ⟨ours, theirs⟩
    · exact neither (held.imp (·.samePoint ours) (·.samePoint theirs))
    · exact neither (held.symm.imp (·.samePoint theirs) (·.samePoint ours))
  | hkdf ikm salt info block => exact ideal.x25519_ne_hkdf made

theorem IdealDh.generated_free {a b c d : Bytes32} (same : x25519 (S := S) a (x25519Pub S b) = x25519 c (x25519Pub S d)) :
    (x25519Pub S c = x25519Pub S a ∧ x25519Pub S d = x25519Pub S b) ∨
      (x25519Pub S c = x25519Pub S b ∧ x25519Pub S d = x25519Pub S a) :=
  (ideal.x25519_free (ideal.contributory a b) same).imp (And.imp ideal.x25519Pub_canonical ideal.x25519Pub_canonical)
    (And.imp ideal.x25519Pub_canonical ideal.x25519Pub_canonical)

namespace Factor
variable {f : Factor S}

theorem shared_ne_hkdf (random : Unmade f.fallback) (ikm : List S) (salt : S) (info : Bytes) (block : Nat) :
    f.shared ≠ hkdfBlock ikm salt info block := by
  unfold shared x25519DeriveShared
  split
  · exact ideal.x25519_ne_hkdf
  · exact random.block _ _ _ _

theorem unmade_of_shut (random : Unmade f.fallback) (shut : ¬f.Opened holds) (premises : Set S) :
    ¬KeyRule holds premises f.shared := by
  unfold shared x25519DeriveShared
  split
  · rename_i contributory
    exact ideal.product_unmade contributory (fun held => shut ⟨contributory, held⟩) premises
  · intro applies
    generalize made : f.fallback = key at applies
    cases applies with
    | dh held => exact random.product _ _ made
    | hkdf ikm salt info block => exact random.block _ _ _ _ made

/-- Nothing that follows from an input that is not opened is learned, unless some of it was known. -/
theorem guards (random : Unmade f.fallback) (shut : ¬f.Opened holds) (apart : ∀ key ∈ known, ¬DerivedFrom f.shared key)
    {key : S} (derived : DerivedFrom f.shared key) : ¬Learns holds known key :=
  ideal.free.not_derives (unmade_of_shut ideal random shut)
    (fun key present descends => apart key present (descends_iff_derivedFrom.mp descends))
    (descends_iff_derivedFrom.mpr derived)

end Factor

theorem IdealDh.product_guards {ourPriv peerPub : Bytes32} {key : S} (contributory : wasContributory S ourPriv peerPub = true)
    (neither : ¬(HoldsKey S holds (x25519Pub S ourPriv) ∨ HoldsKey S holds peerPub))
    (apart : ∀ key ∈ known, ¬DerivedFrom (x25519 ourPriv peerPub) key)
    (derived : DerivedFrom (x25519 ourPriv peerPub) key) : ¬Learns holds known key :=
  ideal.free.not_derives (ideal.product_unmade contributory neither)
    (fun key present descends => apart key present (descends_iff_derivedFrom.mp descends))
    (descends_iff_derivedFrom.mpr derived)

end
end

/-- A key of the free model in which DH products are free as well. -/
structure PairKey where
  free : FreeKey
  deriving DecidableEq

def unorderedPair (a b : Bytes) : Bytes :=
  if a.map UInt8.toNat ≤ b.map UInt8.toNat then pack [a, b] else pack [b, a]

theorem numbers_inj {a b : Bytes} (same : a.map UInt8.toNat = b.map UInt8.toNat) : a = b :=
  List.map_injective_iff.mpr (fun _ _ => UInt8.toNat_inj.mp) same

theorem unorderedPair_comm (a b : Bytes) : unorderedPair a b = unorderedPair b a := by
  unfold unorderedPair
  rcases le_total (a.map UInt8.toNat) (b.map UInt8.toNat) with ab | ba
  · rw [if_pos ab]
    split
    · rename_i ba
      rw [numbers_inj (le_antisymm ab ba)]
    · rfl
  · rw [if_pos ba]
    split
    · rename_i ab
      rw [numbers_inj (le_antisymm ab ba)]
    · rfl

theorem unorderedPair_inj {a b c d : Bytes} (same : unorderedPair a b = unorderedPair c d) :
    (c = a ∧ d = b) ∨ (c = b ∧ d = a) := by
  unfold unorderedPair at same
  split at same <;> split at same <;> have parts := pack_inj same <;>
    simp only [List.cons.injEq, and_true] at parts <;> simp [parts.1, parts.2]

instance : Primitives PairKey where
  zeroSalt := ⟨zeroSalt⟩
  hkdfBlock ikm salt info block := ⟨hkdfBlock (ikm.map PairKey.free) salt.free info block⟩
  aeadSeal key := aeadSeal key.free
  aeadOpen key := aeadOpen key.free
  x25519Pub := x25519Pub FreeKey
  x25519 ourPriv peerPub := ⟨⟨1 :: unorderedPair (x25519Pub FreeKey ourPriv).toList (canonical peerPub).toList⟩⟩
  wasContributory _ _ := true
  pbkdf2 passphrase salt iterations := ⟨pbkdf2 passphrase salt iterations⟩

theorem PairKey.free_inj {a b : PairKey} (same : a.free = b.free) : a = b := by
  cases a
  cases b
  exact congrArg PairKey.mk same

theorem pairKey_product_inj {a c p q : Bytes32} (same : x25519 (S := PairKey) a p = x25519 c q) :
    (x25519Pub PairKey c = x25519Pub PairKey a ∧ canonical q = canonical p) ∨
      (x25519Pub PairKey c = canonical p ∧ canonical q = x25519Pub PairKey a) := by
  have pairs := (List.cons.inj (congrArg FreeKey.derivation (congrArg PairKey.free same))).2
  exact (unorderedPair_inj pairs).imp (And.imp ByteVec.toList_inj.mp ByteVec.toList_inj.mp)
    (And.imp ByteVec.toList_inj.mp ByteVec.toList_inj.mp)

theorem samePoint_iff {p q : Bytes32} : SamePoint PairKey p q ↔ canonical p = canonical q := by
  constructor
  · intro same
    rcases pairKey_product_inj (same p) with ⟨_, straight⟩ | ⟨own, other⟩
    · exact straight.symm
    · exact own.symm.trans other.symm
  · intro same ourPriv
    simp only [x25519, same]

instance (p q : Bytes32) : Decidable (SamePoint PairKey p q) := decidable_of_iff _ samePoint_iff.symm

theorem pairKey_unmade {derivation : Bytes} (other : derivation.head? ≠ some 1 ∧ derivation.head? ≠ some 2) :
    Unmade (⟨⟨derivation⟩⟩ : PairKey) where
  product a p same := by
    obtain rfl := congrArg FreeKey.derivation (congrArg PairKey.free same)
    exact other.1 rfl
  block ikm salt info block same := by
    obtain rfl := congrArg FreeKey.derivation (congrArg PairKey.free same)
    exact other.2 rfl

theorem pairKey_ideal : IdealDh PairKey where
  x25519_comm a b := by
    simp only [x25519, x25519Pub, canonical_canonical]
    rw [unorderedPair_comm]
  contributory _ _ := rfl
  open_sealed := freeKey_ideal.open_sealed
  hkdf_inj := by
    intro ikm ikm' salt salt' info info' block block' same
    obtain ⟨keys, salts, labels, blocks⟩ := freeKey_ideal.hkdf_inj (congrArg PairKey.free same)
    exact ⟨List.map_injective_iff.mpr (fun _ _ => PairKey.free_inj) keys, PairKey.free_inj salts, labels, blocks⟩
  hkdf_grows := by
    obtain ⟨size, grows⟩ := freeKey_ideal.hkdf_grows
    refine ⟨fun key => size key.free, fun ikm salt info block => ?_⟩
    obtain ⟨salted, inputs⟩ := grows (ikm.map PairKey.free) salt.free info block
    exact ⟨salted, fun key present => inputs key.free (List.mem_map_of_mem present)⟩
  sealed_of_open := freeKey_ideal.sealed_of_open
  seal_inj := by
    intro key key' nonce nonce' plaintext plaintext' ad ad' ciphertext sealed sealed'
    obtain ⟨keys, rest⟩ := freeKey_ideal.seal_inj sealed sealed'
    exact ⟨PairKey.free_inj keys, rest⟩
  x25519_free := by
    intro a c p q _ same
    simp only [samePoint_iff]
    rcases pairKey_product_inj same with ⟨own, other⟩ | ⟨own, other⟩
    · exact Or.inl ⟨congrArg canonical own, other⟩
    · refine Or.inr ⟨?_, ?_⟩
      · rw [own, canonical_canonical]
      · exact other.trans (canonical_canonical _).symm
  x25519Pub_canonical := by
    intro a b same
    exact (canonical_canonical _).symm.trans ((samePoint_iff.mp same).trans (canonical_canonical _))
  x25519_ne_hkdf := by
    intro a p ikm salt info block same
    exact absurd (List.cons.inj (congrArg FreeKey.derivation (congrArg PairKey.free same))).1 (by decide)
  zeroSalt_ne_hkdf := (pairKey_unmade (by decide)).block _ _ _ _
  zeroSalt_ne_x25519 _ := (pairKey_unmade (by decide)).product _ _

end TrinoCore
