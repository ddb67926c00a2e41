import TrinoCore.Vault.Container

/-!
The vault file in both directions: what the decoder accepts, what it passes over, and that it stays
inside the file.
-/

namespace TrinoCore

/-- `bytes[start..stop]`, where a range outside ends the call. -/
def slice? (bytes : Bytes) (start stop : Nat) : Option Bytes :=
  if start ≤ stop ∧ stop ≤ bytes.length then some ((bytes.drop start).take (stop - start)) else none

/-- `decode_vault` with every index and slice checked as it is taken, and the lengths that
`copy_from_slice` compares. -/
def decodeVaultChecked (bytes : Bytes) : Option (Except VaultError SealedVault) := do
  let minSize := vaultMagic.length + 2 + saltSize + 12
  if bytes.length < minSize then return .error .corrupted
  let magic ← slice? bytes 0 vaultMagic.length
  if magic ≠ vaultMagic then return .error .badMagic
  let off := vaultMagic.length
  let version ← bytes[off]?
  let off := off + 2
  let salt ← (slice? bytes off (off + saltSize)).bind (ByteVec.ofBytes? saltSize)
  let off := off + saltSize
  let nonce ← (slice? bytes off (off + 12)).bind (ByteVec.ofBytes? 12)
  let off := off + 12
  let ciphertext ← slice? bytes off bytes.length
  return .ok { version, salt, nonce, ciphertext }

theorem slice?_sliceArray {n off : Nat} {bytes : Bytes} (inside : off + n ≤ bytes.length) :
    (slice? bytes off (off + n)).bind (ByteVec.ofBytes? n) = some (sliceArray n bytes off inside) := by
  have range : off ≤ off + n ∧ off + n ≤ bytes.length := ⟨Nat.le_add_right off n, inside⟩
  rw [slice?, if_pos range, Nat.add_sub_cancel_left, Option.bind_some]
  exact ByteVec.ofBytes?_toList (sliceArray n bytes off inside)

theorem decodeVaultChecked_eq (bytes : Bytes) : decodeVaultChecked bytes = some (decodeVault bytes) := by
  have magicLength : vaultMagic.length = 6 := rfl
  unfold decodeVaultChecked decodeVault
  dsimp only
  by_cases short : bytes.length < vaultMagic.length + 2 + saltSize + 12
  · rw [if_pos short, dif_pos short]
    rfl
  · have front : slice? bytes 0 vaultMagic.length = some (bytes.take vaultMagic.length) := by
      rw [slice?, if_pos ⟨Nat.zero_le _, by omega⟩]
      rfl
    have version : bytes[vaultMagic.length]? = some (bytes.get ⟨vaultMagic.length, by omega⟩) :=
      List.getElem?_eq_getElem (by omega)
    have saltInside : vaultMagic.length + 2 + saltSize ≤ bytes.length := by omega
    have nonceInside : vaultMagic.length + 2 + saltSize + 12 ≤ bytes.length := by omega
    have rest : slice? bytes (vaultMagic.length + 2 + saltSize + 12) bytes.length =
        some (bytes.drop (vaultMagic.length + 2 + saltSize + 12)) := by
      rw [slice?, if_pos ⟨by omega, Nat.le_refl _⟩, ← List.length_drop, List.take_length]
    rw [if_neg short, dif_neg short, front, version, slice?_sliceArray saltInside, slice?_sliceArray nonceInside, rest]
    by_cases magic : bytes.take vaultMagic.length = vaultMagic
    · simp [magic]
    · simp [magic]

/-- The file of a vault with some reserved byte; the encoder writes 0. -/
def vaultFile (v : SealedVault) (reserved : UInt8) : Bytes :=
  vaultMagic ++ [v.version, reserved] ++ v.salt.toList ++ v.nonce.toList ++ v.ciphertext

theorem decodeVault_vaultFile (v : SealedVault) (reserved : UInt8) : decodeVault (vaultFile v reserved) = .ok v :=
  decodeVault_layout v reserved

theorem vaultFile_set (v : SealedVault) (reserved : UInt8) : (vaultFile v reserved).set 7 0 = encodeVault v := rfl

theorem decodeVault_bounds {bytes : Bytes} {v : SealedVault} (decoded : decodeVault bytes = .ok v) :
    36 ≤ bytes.length ∧ vaultMagic <+: bytes := by
  unfold decodeVault at decoded
  dsimp only at decoded
  split at decoded
  · cases decoded
  · rename_i long
    split at decoded
    · cases decoded
    · rename_i magic
      refine ⟨Nat.not_lt.mp long, ?_⟩
      rw [← not_not.mp magic]
      exact List.take_prefix _ _

theorem eq_vaultFile {bytes : Bytes} (long : 36 ≤ bytes.length) (magic : vaultMagic <+: bytes) :
    ∃ v reserved, bytes = vaultFile v reserved := by
  obtain ⟨rest, rfl⟩ := magic
  have size : 30 ≤ rest.length := by
    rw [List.length_append] at long
    exact Nat.le_of_add_le_add_left (show 6 + 30 ≤ 6 + rest.length from long)
  match rest, size with
  | version :: reserved :: body, size =>
    have inBody : saltSize + 12 ≤ body.length := by
      simp only [List.length_cons] at size
      exact Nat.le_of_add_le_add_right (show 28 + 2 ≤ body.length + 2 from size)
    have saltLength : (body.take saltSize).length = saltSize := by
      rw [List.length_take]
      omega
    have nonceLength : ((body.drop saltSize).take 12).length = 12 := by
      rw [List.length_take, List.length_drop]
      omega
    refine ⟨⟨version, ⟨body.take saltSize, saltLength⟩, ⟨(body.drop saltSize).take 12, nonceLength⟩,
      (body.drop saltSize).drop 12⟩, reserved, ?_⟩
    have parts : body = body.take saltSize ++ ((body.drop saltSize).take 12 ++ (body.drop saltSize).drop 12) := by
      rw [List.take_append_drop, List.take_append_drop]
    have layout (front : Bytes) : front ++ version :: reserved :: body = front ++ [version, reserved] ++ body.take saltSize ++
        (body.drop saltSize).take 12 ++ (body.drop saltSize).drop 12 := by
      conv_lhs => rw [parts]
      simp only [List.append_assoc, List.cons_append, List.nil_append]
    exact layout vaultMagic

theorem decodeVault_isOk {bytes : Bytes} :
    (∃ v, decodeVault bytes = .ok v) ↔ 36 ≤ bytes.length ∧ vaultMagic <+: bytes := by
  constructor
  · rintro ⟨v, decoded⟩
    exact decodeVault_bounds decoded
  · rintro ⟨long, magic⟩
    obtain ⟨v, reserved, rfl⟩ := eq_vaultFile long magic
    exact ⟨v, decodeVault_vaultFile v reserved⟩

/-- Encoding again changes nothing but the reserved byte. -/
theorem encodeVault_decodeVault {bytes : Bytes} {v : SealedVault} (decoded : decodeVault bytes = .ok v) :
    encodeVault v = bytes.set 7 0 := by
  obtain ⟨long, magic⟩ := decodeVault_bounds decoded
  obtain ⟨w, reserved, rfl⟩ := eq_vaultFile long magic
  rw [decodeVault_vaultFile] at decoded
  rw [vaultFile_set, Except.ok.inj decoded]

theorem set_eq_set_iff {α : Type} {xs ys : List α} {i : Nat} {a : α} (inX : i < xs.length) (inY : i < ys.length) :
    xs.set i a = ys.set i a ↔ ∀ j ≠ i, xs[j]? = ys[j]? := by
  constructor
  · intro same j other
    have entries := congrArg (fun list => list[j]?) same
    simpa only [List.getElem?_set_ne other.symm] using entries
  · intro elsewhere
    apply List.ext_getElem?
    intro j
    by_cases here : j = i
    · rw [here, List.getElem?_set_self inX, List.getElem?_set_self inY]
    · rw [List.getElem?_set_ne (Ne.symm here), List.getElem?_set_ne (Ne.symm here), elsewhere j here]

/-- The container in both directions: what is written is read, and what is accepted is, up to the
reserved byte, what would be written. -/
theorem vault_format :
    (∀ v, decodeVault (encodeVault v) = .ok v) ∧
      ∀ bytes, decodeVaultChecked bytes = some (decodeVault bytes) ∧
        ((∃ v, decodeVault bytes = .ok v) ↔ 36 ≤ bytes.length ∧ vaultMagic <+: bytes) ∧
        (∀ v, decodeVault bytes = .ok v → encodeVault v = bytes.set 7 0) ∧
        ∀ bytes' v v', decodeVault bytes = .ok v → decodeVault bytes' = .ok v' →
          (v = v' ↔ ∀ i ≠ 7, bytes[i]? = bytes'[i]?) := by
  refine ⟨decodeVault_encodeVault, fun bytes => ⟨decodeVaultChecked_eq bytes, decodeVault_isOk, ?_, ?_⟩⟩
  · intro v decoded
    exact encodeVault_decodeVault decoded
  · intro bytes' v v' decoded decoded'
    have long := (decodeVault_bounds decoded).1
    have long' := (decodeVault_bounds decoded').1
    rw [← set_eq_set_iff (a := 0) (by omega) (by omega), ← encodeVault_decodeVault decoded, ← encodeVault_decodeVault decoded']
    constructor
    · intro same
      rw [same]
    · intro same
      have read := congrArg decodeVault same
      rw [decodeVault_encodeVault, decodeVault_encodeVault] at read
      exact Except.ok.inj read

end TrinoCore
