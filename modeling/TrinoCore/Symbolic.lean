import TrinoCore.Vault.Model

/-!
A free model of the primitives: a key is the text of how it was derived. It shows that the ideal
laws are satisfiable, and it can be run.
-/

namespace TrinoCore

/-- Byte strings as one self-delimiting byte string: each byte is marked, each string is closed. -/
def pack (parts : List Bytes) : Bytes :=
  parts.flatMap fun part => part.flatMap (fun b => [1, b]) ++ [0]

def unpackFrom (part : Bytes) : Bytes → Option (List Bytes)
  | [] => if part = [] then some [] else none
  | 0 :: rest => (unpackFrom [] rest).map (part :: ·)
  | 1 :: b :: rest => unpackFrom (part ++ [b]) rest
  | _ => none

theorem unpackFrom_part (front part rest : Bytes) :
    unpackFrom front (part.flatMap (fun b => [1, b]) ++ 0 :: rest) =
      (unpackFrom [] rest).map ((front ++ part) :: ·) := by
  induction part generalizing front with
  | nil => simp [unpackFrom]
  | cons b part ih =>
    simp only [List.flatMap_cons, List.cons_append, List.nil_append, unpackFrom]
    rw [ih]
    simp

theorem unpack_pack (parts : List Bytes) : unpackFrom [] (pack parts) = some parts := by
  induction parts with
  | nil => rfl
  | cons part rest ih =>
    have split : pack (part :: rest) = part.flatMap (fun b => [1, b]) ++ 0 :: pack rest := by
      simp [pack]
    rw [split, unpackFrom_part, ih]
    rfl

theorem pack_inj {parts parts' : List Bytes} (h : pack parts = pack parts') : parts = parts' := by
  have unpacked := congrArg (unpackFrom []) h
  rw [unpack_pack, unpack_pack] at unpacked
  exact Option.some.inj unpacked

theorem length_le_pack {parts : List Bytes} {part : Bytes} (present : part ∈ parts) :
    part.length ≤ (pack parts).length := by
  induction parts with
  | nil => cases present
  | cons first rest ih =>
    have size : (pack (first :: rest)).length = 2 * first.length + 1 + (pack rest).length := by
      simp [pack, List.length_flatMap]
      omega
    rcases List.mem_cons.mp present with rfl | later
    · omega
    · have := ih later
      omega

/-- A key of the free model. -/
structure FreeKey where
  derivation : Bytes
  deriving DecidableEq

/-- A public key with the bit set that X25519 does not read. -/
def canonical (p : Bytes32) : Bytes32 := p.set 31 (p.get 31 ||| 128)

/-- The same key for X25519, with that bit cleared. -/
def bent (p : Bytes32) : Bytes32 := p.set 31 (p.get 31 &&& 127)

theorem canonical_canonical (p : Bytes32) : canonical (canonical p) = canonical p := by
  refine ByteVec.toList_inj.mp ?_
  have top : (canonical p).get 31 = p.get 31 ||| 128 := List.Vector.get_set_same _ _ _
  simp only [canonical] at top ⊢
  rw [top, UInt8.or_assoc, UInt8.or_self]
  simp only [List.Vector.toList_set, List.set_set]

theorem derivations_inj {keys keys' : List FreeKey}
    (h : keys.map FreeKey.derivation = keys'.map FreeKey.derivation) : keys = keys' :=
  List.map_injective_iff.mpr (fun a b same => by cases a; cases b; cases same; rfl) h

instance : Primitives FreeKey where
  zeroSalt := ⟨[0]⟩
  hkdfBlock ikm salt info block :=
    ⟨2 :: pack (salt.derivation :: info :: List.replicate block 0 :: ikm.map FreeKey.derivation)⟩
  aeadSeal key nonce plaintext ad := some (pack [key.derivation, nonce.toList, plaintext, ad])
  aeadOpen key nonce ciphertext ad :=
    match unpackFrom [] ciphertext with
    | some [_, _, plaintext, _] =>
      if pack [key.derivation, nonce.toList, plaintext, ad] = ciphertext then some plaintext else none
    | _ => none
  x25519Pub privBytes := canonical (privBytes.map (fun b => ~~~b))
  x25519 ourPriv peerPub := ⟨1 :: List.zipWith (· + ·) (canonical (ourPriv.map (fun b => ~~~b))).toList peerPub.toList⟩
  wasContributory _ _ := true
  pbkdf2 passphrase salt iterations := ⟨3 :: pack [passphrase, salt, List.replicate iterations 0]⟩

theorem freeKey_ideal : Ideal FreeKey where
  x25519_comm a b := by
    simp only [x25519, x25519Pub]
    rw [List.zipWith_comm_of_comm (fun x y => UInt8.add_comm x y)]
  contributory _ _ := rfl
  open_sealed := by
    intro key nonce plaintext ad ciphertext sealed
    obtain rfl := Option.some.inj sealed
    simp only [aeadOpen, unpack_pack, ↓reduceIte]
  hkdf_inj := by
    intro ikm ikm' salt salt' info info' block block' h
    have parts := pack_inj (List.cons.inj (FreeKey.mk.inj h)).2
    simp only [List.cons.injEq] at parts
    obtain ⟨sameSalt, sameInfo, sameBlock, sameIkm⟩ := parts
    refine ⟨derivations_inj sameIkm, ?_, sameInfo, ?_⟩
    · cases salt
      cases salt'
      exact congrArg FreeKey.mk sameSalt
    · simpa using congrArg List.length sameBlock
  hkdf_grows := by
    refine ⟨fun key => key.derivation.length, fun ikm salt info block => ?_⟩
    have within : ∀ part ∈ salt.derivation :: info :: List.replicate block 0 :: ikm.map FreeKey.derivation,
        part.length < (hkdfBlock ikm salt info block).derivation.length := by
      intro part present
      have bound := length_le_pack present
      simp only [hkdfBlock, List.length_cons]
      omega
    refine ⟨within _ List.mem_cons_self, fun key present => within _ ?_⟩
    simp only [List.mem_cons, List.mem_map]
    exact Or.inr (Or.inr (Or.inr ⟨key, present, rfl⟩))
  sealed_of_open := by
    intro key nonce plaintext ad ciphertext opened
    simp only [aeadOpen] at opened
    split at opened
    · split at opened
      · rename_i same
        obtain rfl := Option.some.inj opened
        exact congrArg some same
      · cases opened
    · cases opened
  seal_inj := by
    intro key key' nonce nonce' plaintext plaintext' ad ad' ciphertext sealed sealed'
    have parts := pack_inj (Option.some.inj (sealed.trans sealed'.symm))
    simp only [List.cons.injEq, and_true] at parts
    obtain ⟨sameKey, sameNonce, samePlaintext, sameAd⟩ := parts
    refine ⟨?_, ByteVec.toList_inj.mp sameNonce, samePlaintext, sameAd⟩
    cases key
    cases key'
    exact congrArg FreeKey.mk sameKey

def freeSignature (pubBytes : Bytes32) (msg : Bytes) : Bytes64 :=
  ⟨(pubBytes.toList ++ msg ++ List.replicate 64 0).take 64, by simp; omega⟩

instance : Signatures where
  ed25519Pub privBytes := privBytes.map (fun b => ~~~b)
  ed25519SignBytes privBytes msg := freeSignature (privBytes.map (fun b => ~~~b)) msg
  ed25519Verify pubBytes msg signature := signature = freeSignature pubBytes msg
  nostrPub privBytes := some privBytes

theorem freeSignatures_honest : HonestSignatures :=
  fun _ _ => decide_eq_true rfl

/-! ### Vault payloads -/

def packKeyPair (s : SerializedKeyPair) : Bytes := pack [utf8 s.privHex, utf8 s.pubHex]

def packTime : Option Int64 → Bytes
  | none => []
  | some t => 1 :: List.replicate t.toUInt64.toNat 0

def packPrekey (s : SerializedSignedPreKey) : Bytes :=
  pack [List.replicate s.id.toNat 0, packKeyPair s.keypair, utf8 s.signature, packTime (some s.createdAt),
    packTime s.retiredAt]

def packOneTimePrekey (s : SerializedOneTimePreKey) : Bytes :=
  pack [List.replicate s.id.toNat 0, packKeyPair s.keypair]

def packPayload (s : SerializedIdentity) : Bytes :=
  pack [packKeyPair s.ikSign, packKeyPair s.ikDh, packKeyPair s.nostr, packPrekey s.signedPreKey,
    pack (s.oneTimePreKeys.map packOneTimePrekey), utf8 s.totpSecret, pack (s.retiredSignedPreKeys.map packPrekey)]

theorem replicate_inj {m n : Nat} (h : List.replicate m (0 : UInt8) = List.replicate n 0) : m = n := by
  simpa using congrArg List.length h

theorem packKeyPair_inj : Function.Injective packKeyPair := by
  intro s t h
  have parts := pack_inj h
  simp only [List.cons.injEq, utf8_inj, and_true] at parts
  cases s
  cases t
  simp only [SerializedKeyPair.mk.injEq]
  exact parts

theorem packTime_inj : Function.Injective packTime := by
  intro s t h
  cases s with
  | none =>
    cases t with
    | none => rfl
    | some t => cases h
  | some s =>
    cases t with
    | none => cases h
    | some t =>
      have same := UInt64.toNat_inj.mp (replicate_inj (List.cons.inj h).2)
      exact congrArg some (Int64.toBitVec_inj.mp (congrArg UInt64.toBitVec same))

theorem packPrekey_inj : Function.Injective packPrekey := by
  intro s t h
  have parts := pack_inj h
  simp only [List.cons.injEq, utf8_inj, and_true] at parts
  obtain ⟨id, keypair, signature, createdAt, retiredAt⟩ := parts
  cases s
  cases t
  simp only [SerializedSignedPreKey.mk.injEq]
  exact ⟨UInt32.toNat_inj.mp (replicate_inj id), packKeyPair_inj keypair, signature,
    Option.some.inj (packTime_inj createdAt), packTime_inj retiredAt⟩

theorem packOneTimePrekey_inj : Function.Injective packOneTimePrekey := by
  intro s t h
  have parts := pack_inj h
  simp only [List.cons.injEq, and_true] at parts
  cases s
  cases t
  simp only [SerializedOneTimePreKey.mk.injEq]
  exact ⟨UInt32.toNat_inj.mp (replicate_inj parts.1), packKeyPair_inj parts.2⟩

theorem packPayload_inj : Function.Injective packPayload := by
  intro s t h
  have parts := pack_inj h
  simp only [List.cons.injEq, utf8_inj, and_true] at parts
  obtain ⟨ikSign, ikDh, nostr, current, oneTime, totpSecret, retired⟩ := parts
  cases s
  cases t
  simp only [SerializedIdentity.mk.injEq]
  exact ⟨packKeyPair_inj ikSign, packKeyPair_inj ikDh, packKeyPair_inj nostr, packPrekey_inj current,
    packOneTimePrekey_inj.list_map (pack_inj oneTime), totpSecret, packPrekey_inj.list_map (pack_inj retired)⟩

noncomputable instance : VaultJson where
  toVec payload := some (packPayload payload)
  fromSlice := Function.partialInv packPayload

theorem packed_round_trips : JsonRoundTrips :=
  fun payload => ⟨packPayload payload, rfl, Function.partialInv_left packPayload_inj payload⟩

instance : Hmac where
  hmacSha1 _ _ := List.Vector.replicate 20 0

/-! ### Samples -/

def sampleBytes (size : Nat) (value : UInt8) : ByteVec size := List.Vector.replicate size value

def sampleMaster : FreeKey := ⟨[9]⟩

def sampleIdentityRandom : IdentityRandom where
  signPriv := sampleBytes 32 10
  dhPriv := sampleBytes 32 11
  nostrDraws := [sampleBytes 32 12]
  spkPriv := sampleBytes 32 13
  opkPrivs := List.Vector.replicate opkCount (sampleBytes 32 14)

def sampleIdentity : Identity where
  ikSign := generateEd25519 (sampleBytes 32 10)
  ikDh := generateX25519 FreeKey (sampleBytes 32 11)
  nostr := ⟨sampleBytes 32 12, sampleBytes 32 12⟩
  signedPrekey := createSignedPrekey FreeKey (generateEd25519 (sampleBytes 32 10)) 1 0 (sampleBytes 32 13)
  oneTimePrekeys := createOneTimePrekeys FreeKey 1 (List.replicate opkCount (sampleBytes 32 14))
  retiredSignedPrekeys := []

theorem sampleIdentity_created : createIdentity FreeKey sampleIdentityRandom 0 = some sampleIdentity := rfl

end TrinoCore
