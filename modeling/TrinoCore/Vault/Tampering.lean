import TrinoCore.Vault.Format

/-!
What opening makes of a vault file that somebody changed: every change but that of the reserved byte is
an error, and which one depends on where the change is.
-/

namespace TrinoCore

section
variable {S : Type} [Primitives S] [VaultJson] [Hmac]

variable (S) in
omit [VaultJson] [Hmac] in
def vaultKey (passphrase : String) (salt : ByteVec saltSize) : S :=
  pbkdf2 (utf8 passphrase) salt.toList pbkdf2Iterations.toNat

variable (S) in
def openVaultFile (bytes : Bytes) (passphrase code : String) (now : Int64) : Except VaultError (Identity × Bytes) := do
  let blob ← decodeVault bytes
  unsealVault S blob passphrase code now

variable (S) in
omit [VaultJson] [Hmac] in
/-- Whoever wrote this file sealed nothing of their own under the keys of the passphrase. -/
def SealedNothing (passphrase : String) (v : SealedVault) (bytes : Bytes) : Prop :=
  ∀ blob plaintext, decodeVault bytes = .ok blob →
    aeadOpen (vaultKey S passphrase blob.salt) blob.nonce blob.ciphertext [] = some plaintext → blob.ciphertext = v.ciphertext

theorem unsealVault_version {blob : SealedVault} (other : blob.version ≠ vaultVersion) (passphrase code : String) (now : Int64) :
    unsealVault S blob passphrase code now = .error (.unsupportedVersion blob.version) := by
  unfold unsealVault
  rw [if_pos other]
  rfl

theorem unsealVault_closed {blob : SealedVault} {passphrase : String} (version : blob.version = vaultVersion)
    (closed : aeadOpen (vaultKey S passphrase blob.salt) blob.nonce blob.ciphertext [] = none) (code : String) (now : Int64) :
    unsealVault S blob passphrase code now = .error .decryptionFailed := by
  unfold vaultKey at closed
  unfold unsealVault aesGcmDecrypt
  simp [version, closed, Except.mapError, bind, Except.bind]

variable {identity : Identity} {totpSecret : Bytes} {passphrase : String} {salt : ByteVec saltSize} {nonce : Nonce}
  {v : SealedVault}

omit [Hmac] in
theorem sealVault_parts (saved : sealVault S identity totpSecret passphrase salt nonce = .ok v) :
    v.version = vaultVersion ∧ v.salt = salt ∧ v.nonce = nonce ∧
      ∃ payload, aeadSeal (vaultKey S passphrase salt) nonce payload [] = some v.ciphertext := by
  unfold sealVault at saved
  dsimp only at saved
  split at saved
  · cases saved
  · rename_i payload _
    cases encrypted : aeadSeal (vaultKey S passphrase salt) nonce payload [] with
    | none =>
      unfold vaultKey at encrypted
      rw [aesGcmEncrypt, Option.getD_none, encrypted] at saved
      cases saved
    | some ciphertext =>
      have sealed := encrypted
      unfold vaultKey at encrypted
      rw [aesGcmEncrypt, Option.getD_none, encrypted] at saved
      obtain rfl := Except.ok.inj saved
      exact ⟨rfl, rfl, rfl, payload, sealed⟩

omit [Hmac] in
theorem opens_own_only (ideal : Ideal S) (saved : sealVault S identity totpSecret passphrase salt nonce = .ok v) {key : S}
    {other : Nonce} {plaintext : Bytes} (opened : aeadOpen key other v.ciphertext [] = some plaintext) :
    key = vaultKey S passphrase salt ∧ other = nonce := by
  obtain ⟨_, _, _, payload, encrypted⟩ := sealVault_parts saved
  obtain ⟨sameKey, sameNonce, _, _⟩ := ideal.seal_inj (ideal.sealed_of_open opened) encrypted
  exact ⟨sameKey, sameNonce⟩

omit [Hmac] in
/-- A vault that differs and was not sealed anew does not open. -/
theorem altered_closed (ideal : Ideal S) (saved : sealVault S identity totpSecret passphrase salt nonce = .ok v)
    (salts : ∀ other, vaultKey S passphrase other = vaultKey S passphrase salt → other = salt) {w : SealedVault}
    (version : w.version = vaultVersion) (altered : w ≠ v)
    (nothingSealed : ∀ plaintext, aeadOpen (vaultKey S passphrase w.salt) w.nonce w.ciphertext [] = some plaintext →
      w.ciphertext = v.ciphertext) :
    aeadOpen (vaultKey S passphrase w.salt) w.nonce w.ciphertext [] = none := by
  obtain ⟨own, ownSalt, ownNonce, _⟩ := sealVault_parts saved
  by_contra opens
  obtain ⟨plaintext, opened⟩ := Option.ne_none_iff_exists'.mp opens
  have ciphertext := nothingSealed plaintext opened
  rw [ciphertext] at opened
  obtain ⟨sameKey, sameNonce⟩ := opens_own_only ideal saved opened
  apply altered
  cases w
  cases v
  simp only [SealedVault.mk.injEq] at *
  exact ⟨version.trans own.symm, (salts _ sameKey).trans ownSalt.symm, sameNonce.trans ownNonce.symm, ciphertext⟩

/-- Every file that anyone without the passphrase makes of a vault file, or of anything else, is refused,
with the error of the first check it fails, unless it is the vault file up to the reserved byte; and
the vault file opens under no passphrase that derives another key. -/
theorem vault_file_outcome (ideal : Ideal S) (roundTrips : JsonRoundTrips)
    (saved : sealVault S identity totpSecret passphrase salt nonce = .ok v)
    (salts : ∀ other, vaultKey S passphrase other = vaultKey S passphrase salt → other = salt) :
    (∀ bytes, SealedNothing S passphrase v bytes → ∀ code now,
      openVaultFile S bytes passphrase code now =
        if bytes.length < 36 then .error .corrupted
        else if ¬vaultMagic <+: bytes then .error .badMagic
        else if bytes[6]? ≠ some vaultVersion then .error (.unsupportedVersion (bytes[6]?.getD 0))
        else if bytes.set 7 0 ≠ encodeVault v then .error .decryptionFailed
        else if isTotpCodeValid code totpSecret now then .ok (identity, totpSecret)
        else .error .invalidTotp) ∧
      ∀ wrong, vaultKey S wrong salt ≠ vaultKey S passphrase salt → ∀ code now,
        openVaultFile S (encodeVault v) wrong code now = .error .decryptionFailed := by
  obtain ⟨version, ownSalt, ownNonce, _⟩ := sealVault_parts saved
  constructor
  · intro bytes nothingSealed code now
    unfold openVaultFile
    split
    · rename_i short
      rw [decodeVault, dif_pos (show bytes.length < vaultMagic.length + 2 + saltSize + 12 from short)]
      rfl
    · rename_i long
      split
      · rename_i magic
        have front : bytes.take vaultMagic.length ≠ vaultMagic := fun same => magic (same ▸ List.take_prefix _ _)
        rw [decodeVault, dif_neg (show ¬bytes.length < vaultMagic.length + 2 + saltSize + 12 from long)]
        dsimp only
        rw [if_pos front]
        rfl
      · rename_i magic
        obtain ⟨w, reserved, rfl⟩ := eq_vaultFile (Nat.not_lt.mp long) (not_not.mp magic)
        have sixth : (vaultFile w reserved)[6]? = some w.version := rfl
        have decoded := decodeVault_vaultFile w reserved
        rw [decoded, sixth, vaultFile_set]
        change unsealVault S w passphrase code now = _
        split
        · rename_i other
          exact unsealVault_version (fun same => other (congrArg some same)) passphrase code now
        · rename_i current
          have wVersion : w.version = vaultVersion := Option.some.inj (not_not.mp current)
          split
          · rename_i changed
            have altered : w ≠ v := fun same => changed (congrArg encodeVault same)
            exact unsealVault_closed wVersion
              (altered_closed ideal saved salts wVersion altered fun plaintext => nothingSealed w plaintext decoded) code now
          · rename_i same
            have decodedSame := congrArg decodeVault (not_not.mp same)
            rw [decodeVault_encodeVault, decodeVault_encodeVault] at decodedSame
            rw [Except.ok.inj decodedSame]
            exact unsealVault_sealVault ideal.open_sealed roundTrips saved code now
  · intro wrong different code now
    unfold openVaultFile
    rw [decodeVault_encodeVault]
    apply unsealVault_closed version
    by_contra opens
    obtain ⟨plaintext, opened⟩ := Option.ne_none_iff_exists'.mp opens
    obtain ⟨sameKey, _⟩ := opens_own_only ideal saved opened
    rw [ownSalt] at sameKey
    exact different sameKey

end

theorem freeKey_salts (passphrase : String) {salt other : ByteVec saltSize}
    (same : vaultKey FreeKey passphrase other = vaultKey FreeKey passphrase salt) : other = salt := by
  have parts := pack_inj (List.cons.inj (FreeKey.mk.inj same)).2
  simp only [List.cons.injEq] at parts
  exact List.Vector.toList_injective parts.2.1

/-- A vault file with its nonce replaced. -/
theorem vault_file_outcome_sample :
    ∃ v, sealVault FreeKey sampleIdentity [1, 2, 3] "secret" (sampleBytes saltSize 1) (sampleBytes 12 2) = .ok v ∧
      openVaultFile FreeKey (encodeVault { v with nonce := sampleBytes 12 9 }) "secret" "000 000" 60 =
        .error .decryptionFailed := by
  obtain ⟨payload, written, _⟩ := packed_round_trips (serializeIdentity sampleIdentity [1, 2, 3])
  have saved : ∃ v, sealVault FreeKey sampleIdentity [1, 2, 3] "secret" (sampleBytes saltSize 1) (sampleBytes 12 2) = .ok v := by
    unfold sealVault aesGcmEncrypt
    dsimp only
    rw [written]
    exact ⟨_, rfl⟩
  obtain ⟨v, saved⟩ := saved
  refine ⟨v, saved, ?_⟩
  obtain ⟨version, _, nonce, _⟩ := sealVault_parts saved
  have decoded := decodeVault_encodeVault { v with nonce := sampleBytes 12 9 }
  have nothingSealed : SealedNothing FreeKey "secret" v (encodeVault { v with nonce := sampleBytes 12 9 }) := by
    intro blob plaintext read _
    rw [decoded] at read
    rw [← Except.ok.inj read]
  have outcome := (vault_file_outcome freeKey_ideal packed_round_trips saved (fun _ => freeKey_salts "secret")).1
    _ nothingSealed "000 000" 60
  obtain ⟨long, magic⟩ := decodeVault_bounds decoded
  have sixth : (encodeVault { v with nonce := sampleBytes 12 9 })[6]? = some vaultVersion := congrArg some version
  have changed : (encodeVault { v with nonce := sampleBytes 12 9 }).set 7 0 ≠ encodeVault v := by
    intro same
    have decodedSame := congrArg decodeVault (show encodeVault { v with nonce := sampleBytes 12 9 } = encodeVault v from same)
    rw [decoded, decodeVault_encodeVault] at decodedSame
    have nonces := congrArg SealedVault.nonce (Except.ok.inj decodedSame)
    rw [nonce] at nonces
    exact (show sampleBytes 12 9 ≠ sampleBytes 12 2 by decide) nonces
  rw [outcome, if_neg (Nat.not_lt.mpr long), if_neg (not_not.mpr magic), if_neg (not_not.mpr sixth), if_pos changed]

end TrinoCore
