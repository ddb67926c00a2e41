import TrinoCore.Symbolic
import TrinoCore.Vault.Model

namespace TrinoCore

/-- `b"TRINO\0"`. -/
def vaultMagic : Bytes := [0x54, 0x52, 0x49, 0x4E, 0x4F, 0]

def encodeVault (v : SealedVault) : Bytes :=
  vaultMagic ++ [v.version, 0] ++ v.salt.toList ++ v.nonce.toList ++ v.ciphertext

/-- `copy_from_slice` out of `bytes[off..off + n]`. -/
def sliceArray (n : Nat) (bytes : Bytes) (off : Nat) (inside : off + n ≤ bytes.length) : ByteVec n :=
  ⟨(bytes.drop off).take n, by rw [List.length_take, List.length_drop]; omega⟩

def decodeVault (bytes : Bytes) : Except VaultError SealedVault :=
  let minSize := vaultMagic.length + 2 + saltSize + 12
  if short : bytes.length < minSize then .error .corrupted
  else if bytes.take vaultMagic.length ≠ vaultMagic then .error .badMagic
  else
    have long : vaultMagic.length + 2 + saltSize + 12 ≤ bytes.length := Nat.not_lt.mp short
    let off := vaultMagic.length
    let version := bytes.get ⟨off, by omega⟩
    -- the reserved byte is skipped unread
    let off := off + 2
    let salt := sliceArray saltSize bytes off (by omega)
    let off := off + saltSize
    let nonce := sliceArray 12 bytes off (by omega)
    let off := off + 12
    .ok { version, salt, nonce, ciphertext := bytes.drop off }

theorem sliceArray_append {n off : Nat} {v : ByteVec n} {bytes : Bytes} (front back : Bytes)
    (inside : off + n ≤ bytes.length) (parts : bytes = front ++ (v.toList ++ back)) (start : front.length = off) : sliceArray n bytes off inside = v := by
  apply ByteVec.toList_inj.mp
  change (bytes.drop off).take n = v.toList
  rw [parts, List.drop_left' start]
  exact List.take_left' v.toList_length

/-- A file of this layout decodes, whatever its reserved byte is. -/
theorem decodeVault_layout (v : SealedVault) (reserved : UInt8) :
    decodeVault (vaultMagic ++ [v.version, reserved] ++ v.salt.toList ++ v.nonce.toList ++ v.ciphertext) = .ok v := by
  generalize file : vaultMagic ++ [v.version, reserved] ++ v.salt.toList ++ v.nonce.toList ++ v.ciphertext = bytes
  have saltLength := v.salt.toList_length
  have nonceLength := v.nonce.toList_length
  have magicLength : vaultMagic.length = 6 := rfl
  have tail : bytes = vaultMagic ++ ([v.version, reserved] ++ v.salt.toList ++ v.nonce.toList ++ v.ciphertext) := by
    rw [← file]
    simp only [List.append_assoc]
  have size : bytes.length = 8 + saltSize + 12 + v.ciphertext.length := by
    rw [← file]
    simp only [List.length_append, List.length_cons, List.length_nil]
    omega
  have long : ¬bytes.length < vaultMagic.length + 2 + saltSize + 12 := by omega
  have magic : ¬bytes.take vaultMagic.length ≠ vaultMagic := by
    rw [tail, List.take_left' rfl]
    exact not_not_intro rfl
  unfold decodeVault
  dsimp only
  rw [dif_neg long, if_neg magic]
  have version (inside : vaultMagic.length < bytes.length) : bytes.get ⟨vaultMagic.length, inside⟩ = v.version := by
    subst bytes
    rfl
  have salt (inside) : sliceArray saltSize bytes (vaultMagic.length + 2) inside = v.salt := by
    apply sliceArray_append (vaultMagic ++ [v.version, reserved]) (v.nonce.toList ++ v.ciphertext)
    · rw [← file]
      simp only [List.append_assoc]
    · rfl
  have nonce (inside) : sliceArray 12 bytes (vaultMagic.length + 2 + saltSize) inside = v.nonce := by
    apply sliceArray_append (vaultMagic ++ [v.version, reserved] ++ v.salt.toList) v.ciphertext
    · rw [← file, List.append_assoc]
    · rw [List.length_append, saltLength]
      rfl
  have ciphertext : bytes.drop (vaultMagic.length + 2 + saltSize + 12) = v.ciphertext := by
    rw [← file]
    apply List.drop_left'
    rw [List.length_append, List.length_append, saltLength, nonceLength]
    rfl
  rw [version, salt, nonce, ciphertext]

theorem decodeVault_encodeVault (v : SealedVault) : decodeVault (encodeVault v) = .ok v :=
  decodeVault_layout v 0

/-- A vault is sealed as long as AES-GCM takes its payload; written to a file and read back, it opens to the
identity and the secret that went in. -/
theorem vault_round_trip {S : Type} [Primitives S] [VaultJson] [Hmac] (inverts : DecryptionInverts S)
    (roundTrips : JsonRoundTrips) (identity : Identity) (totpSecret : Bytes) (passphrase : String)
    (sealable : ∀ payload, toVec (serializeIdentity identity totpSecret) = some payload → Sealable S payload [])
    (salt : ByteVec saltSize) (nonce : Nonce) {code : String} {now : Int64}
    (valid : isTotpCodeValid code totpSecret now = true) :
    ∃ blob read, sealVault S identity totpSecret passphrase salt nonce = .ok blob ∧
      decodeVault (encodeVault blob) = .ok read ∧
      unsealVault S read passphrase code now = .ok (identity, totpSecret) := by
  obtain ⟨payload, written, _⟩ := roundTrips (serializeIdentity identity totpSecret)
  obtain ⟨ciphertext, encrypted⟩ :=
    sealable payload written (pbkdf2 (utf8 passphrase) salt.toList pbkdf2Iterations.toNat) nonce
  have saved : sealVault S identity totpSecret passphrase salt nonce = .ok ⟨vaultVersion, salt, nonce, ciphertext⟩ := by
    unfold sealVault aesGcmEncrypt
    dsimp only
    rw [written, Option.getD_none]
    dsimp only
    rw [encrypted]
    rfl
  refine ⟨_, _, saved, decodeVault_encodeVault _, ?_⟩
  rw [unsealVault_sealVault inverts roundTrips saved, if_pos valid]

theorem vault_round_trip_sample :
    ∃ blob read, sealVault FreeKey sampleIdentity [1, 2, 3] "secret" (sampleBytes saltSize 1) (sampleBytes 12 2) = .ok blob ∧
      decodeVault (encodeVault blob) = .ok read ∧
      unsealVault FreeKey read "secret" "000 000" 60 = .ok (sampleIdentity, [1, 2, 3]) := by
  have valid : isTotpCodeValid "000 000" [1, 2, 3] 60 = true := by decide
  exact vault_round_trip freeKey_ideal.open_sealed packed_round_trips sampleIdentity [1, 2, 3] "secret"
    (fun _ _ _ _ => ⟨_, rfl⟩) (sampleBytes saltSize 1) (sampleBytes 12 2) valid

end TrinoCore
