import TrinoCore.Lib.JsonSize
import TrinoCore.Vault.Payload

namespace TrinoCore

open JsonValue (size entrySize size_struct size_hex size_u32 size_i64 size_arr_le)

theorem size_kpToSer (kp : KeyPair) : (kpToSer kp).serialize.size ≤ 149 := by
  have whole := size_struct [("priv", some (.str (Hex.encode kp.privBytes.toList))),
    ("pub", some (.str (Hex.encode kp.pubBytes.toList)))]
  have first := size_hex kp.privBytes.toList
  have second := size_hex kp.pubBytes.toList
  rw [kp.privBytes.toList_length] at first
  rw [kp.pubBytes.toList_length] at second
  have names : Json.byteLength (Json.quote "priv") = 6 ∧ Json.byteLength (Json.quote "pub") = 5 := by decide
  simp only [List.map_cons, List.map_nil, List.sum_cons, List.sum_nil, Option.map_some, Option.getD_some, entrySize, names.1,
    names.2, first, second] at whole
  exact whole

theorem size_serializePrekey (spk : SignedPreKey) (retiredAt : Option Int64) :
    (serializePrekey spk retiredAt).serialize.size ≤ 387 := by
  have whole := size_struct [("id", some (.num spk.id.toUInt64)), ("keypair", some (kpToSer spk.keypair).serialize),
    ("signature", some (.str (Hex.encode spk.signature.toList))), ("createdAt", some (Serde.writeI64 spk.createdAt)),
    ("retiredAt", retiredAt.map Serde.writeI64)]
  have id := size_u32 spk.id
  have keypair := size_kpToSer spk.keypair
  have signature := size_hex spk.signature.toList
  have createdAt := size_i64 spk.createdAt
  have retired : (((retiredAt.map Serde.writeI64).map fun v => entrySize ("retiredAt", v)).getD 0) ≤ 33 := by
    cases retiredAt with
    | none => exact Nat.zero_le _
    | some time =>
      have value := size_i64 time
      have name : Json.byteLength (Json.quote "retiredAt") = 11 := by decide
      simp only [Option.map_some, Option.getD_some, entrySize, name]
      omega
  have names : Json.byteLength (Json.quote "id") = 4 ∧ Json.byteLength (Json.quote "keypair") = 9 ∧
      Json.byteLength (Json.quote "signature") = 11 ∧ Json.byteLength (Json.quote "createdAt") = 11 := by decide
  rw [spk.signature.toList_length] at signature
  simp only [List.map_cons, List.map_nil, List.sum_cons, List.sum_nil, Option.map_some, Option.getD_some, entrySize, names,
    signature] at whole
  simp only [entrySize] at retired
  exact whole.trans (by omega)

theorem size_oneTimePreKey (opk : OneTimePreKey) : (SerializedOneTimePreKey.mk opk.id (kpToSer opk.keypair)).serialize.size ≤ 178 := by
  have whole := size_struct [("id", some (.num opk.id.toUInt64)), ("keypair", some (kpToSer opk.keypair).serialize)]
  have id := size_u32 opk.id
  have keypair := size_kpToSer opk.keypair
  have names : Json.byteLength (Json.quote "id") = 4 ∧ Json.byteLength (Json.quote "keypair") = 9 := by decide
  simp only [List.map_cons, List.map_nil, List.sum_cons, List.sum_nil, Option.map_some, Option.getD_some, entrySize, names] at whole
  exact whole.trans (by omega)

theorem size_payload (identity : Identity) (totpSecret : Bytes) :
    (serializeIdentity identity totpSecret).serialize.size ≤
      1000 + 2 * totpSecret.length + 179 * identity.oneTimePrekeys.length + 388 * identity.retiredSignedPrekeys.length := by
  have whole := JsonValue.size_obj (serializeIdentity identity totpSecret).fields
  have ikSign := size_kpToSer identity.ikSign
  have ikDh := size_kpToSer identity.ikDh
  have nostr := size_kpToSer identity.nostr
  have current := size_serializePrekey identity.signedPrekey none
  have secret := size_hex totpSecret
  have opks : (JsonValue.arr ((identity.oneTimePrekeys.map fun o => ⟨o.id, kpToSer o.keypair⟩).map
      SerializedOneTimePreKey.serialize)).size ≤ identity.oneTimePrekeys.length * 179 + 2 := by
    rw [List.map_map]
    have each : ∀ v ∈ identity.oneTimePrekeys.map (SerializedOneTimePreKey.serialize ∘ fun o => ⟨o.id, kpToSer o.keypair⟩),
        v.size ≤ 178 := by
      simp only [List.mem_map]
      rintro _ ⟨opk, _, rfl⟩
      exact size_oneTimePreKey opk
    simpa using size_arr_le each
  have retired : (JsonValue.arr ((identity.retiredSignedPrekeys.map fun r => serializePrekey r.prekey (some r.retiredAt)).map
      SerializedSignedPreKey.serialize)).size ≤ identity.retiredSignedPrekeys.length * 388 + 2 := by
    rw [List.map_map]
    have each : ∀ v ∈ identity.retiredSignedPrekeys.map
        (SerializedSignedPreKey.serialize ∘ fun r => serializePrekey r.prekey (some r.retiredAt)), v.size ≤ 387 := by
      simp only [List.mem_map]
      rintro _ ⟨r, _, rfl⟩
      exact size_serializePrekey r.prekey (some r.retiredAt)
    simpa using size_arr_le each
  have names : (SerializedIdentity.names.map fun name => Json.byteLength (Json.quote name)).sum = 85 := by decide
  simp only [SerializedIdentity.names, SerializedIdentity.declared, List.map_cons, List.map_nil, List.sum_cons,
    List.sum_nil] at names
  simp only [SerializedIdentity.fields, serializeIdentity, List.map_cons, List.map_nil, List.sum_cons, List.sum_nil,
    entrySize] at whole
  exact whole.trans (by omega)

/-- However an identity is used, as long as no clock difference of its rotations overflows and its prekey ids
last: every retired prekey served two days or more and was retired less than thirty days before the current one
was made, fifteen of them are held at most, and the payload of its vault keeps within a constant. -/
theorem lived_identity_small {S : Type} [Primitives S] [Signatures] {identity : Identity} (lived : Lived S identity)
    (totpSecret : Bytes) :
    (∀ r ∈ identity.retiredSignedPrekeys, r.prekey.createdAt.toInt + spkRotationSecs.toInt ≤ r.retiredAt.toInt ∧
      identity.signedPrekey.createdAt.toInt - r.retiredAt.toInt < spkRetentionSecs.toInt) ∧
      identity.retiredSignedPrekeys.length ≤ maxRetiredPrekeys ∧ identity.oneTimePrekeys.length ≤ opkCount ∧
      (utf8 (serializeIdentity identity totpSecret).serialize.render).length ≤ 16000 + 2 * totpSecret.length := by
  have aged := lived.aged
  have retired := aged.retiring.few
  have opks := aged.opks
  refine ⟨fun r present => ⟨aged.retiring.served r present, aged.retiring.recent r present⟩, retired, opks, ?_⟩
  have payload := size_payload identity totpSecret
  rw [JsonValue.length_utf8_render]
  rw [maxRetiredPrekeys] at retired
  rw [opkCount] at opks
  omega

theorem lived_identity_small_sample :
    (utf8 (serializeIdentity sampleRotated [1, 2, 3]).serialize.render).length ≤ 16006 :=
  (lived_identity_small sampleRotated_lived [1, 2, 3]).2.2.2

end TrinoCore
