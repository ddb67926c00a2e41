import TrinoCore.Lib.Bytes

/-! Time-based codes, as in `totp.rs`. The clock is an argument. -/

namespace TrinoCore

/-- HMAC-SHA1, which is third-party code and takes a key of any length. -/
class Hmac where
  hmacSha1 (key msg : Bytes) : ByteVec 20

export Hmac (hmacSha1)

def defaultDigits : UInt32 := 6
def defaultStep : UInt64 := 30

/-- `char::is_whitespace`: the Unicode property White_Space. -/
def isWhitespace (c : Char) : Bool :=
  let v := c.val
  (9 ≤ v && v ≤ 13) || v == 0x20 || v == 0x85 || v == 0xA0 || v == 0x1680 || (0x2000 ≤ v && v ≤ 0x200A) ||
    v == 0x2028 || v == 0x2029 || v == 0x202F || v == 0x205F || v == 0x3000

def zeroPadded (width n : Nat) : String :=
  String.ofList (List.replicate (width - (Nat.repr n).length) '0') ++ Nat.repr n

def constantTimeStrEq (a b : String) : Bool :=
  if a.utf8ByteSize ≠ b.utf8ByteSize then false
  else (((utf8 a).zip (utf8 b)).foldl (fun diff pair => diff ||| (pair.1 ^^^ pair.2)) (0 : UInt8)) == 0

theorem dynamicOffset_lt (b : UInt8) : (b &&& 0x0f).toNat < 16 := by
  rw [UInt8.toNat_and]
  exact Nat.lt_of_le_of_lt Nat.and_le_right (by decide)

section
variable [Hmac]

/-- The offset is below 16, so the four bytes are inside the 20 of the code. -/
def totpCode (secret : Bytes) (time : UInt64) (digits : UInt32) (step : UInt64) : String :=
  let counter := time / step
  let macBytes := hmacSha1 secret counter.toBeBytes
  let offset := (macBytes.get 19 &&& 0x0f).toNat
  have inside : offset < 16 := dynamicOffset_lt _
  let bin := (macBytes.get ⟨offset, by omega⟩ &&& 0x7f).toUInt32 <<< 24
    ||| (macBytes.get ⟨offset + 1, by omega⟩).toUInt32 <<< 16
    ||| (macBytes.get ⟨offset + 2, by omega⟩).toUInt32 <<< 8
    ||| (macBytes.get ⟨offset + 3, by omega⟩).toUInt32
  let code := bin % UInt32.ofNat (10 ^ digits.toNat)
  zeroPadded digits.toNat code.toNat

/-- Casting a time to `u64` wraps, as the `i64` addition does. -/
def isTotpCodeValid (input : String) (secret : Bytes) (now : Int64) : Bool :=
  let cleaned := String.ofList (input.toList.filter fun c => !isWhitespace c)
  if cleaned.utf8ByteSize ≠ defaultDigits.toNat || !cleaned.toList.all Char.isDigit then false
  else [(-30 : Int64), 0, 30].any fun offset =>
    let t := (now + offset).toUInt64
    let code := totpCode secret t defaultDigits defaultStep
    constantTimeStrEq code cleaned

end

theorem length_base32Alphabet : "ABCDEFGHIJKLMNOPQRSTUVWXYZ234567".toList.length = 32 := by decide

def base32Alphabet : List.Vector Char 32 := ⟨"ABCDEFGHIJKLMNOPQRSTUVWXYZ234567".toList, length_base32Alphabet⟩

theorem lowFive_lt (w : UInt32) : (w &&& 0x1f).toNat < 32 := by
  rw [UInt32.toNat_and]
  exact Nat.lt_of_le_of_lt Nat.and_le_right (by decide)

/-- `out.push(ALPHABET[(w & 0x1f) as usize] as char)`. -/
def pushDigit (out : String) (w : UInt32) : String := out.push (base32Alphabet.get ⟨(w &&& 0x1f).toNat, lowFive_lt w⟩)

/-- The inner loop of `to_base32`: a digit for every five bits that are pending. -/
def pushDigits (value : UInt32) : Nat → String → Nat × String
  | bits + 5, out => pushDigits value bits (pushDigit out (value >>> UInt32.ofNat bits))
  | bits, out => (bits, out)

/-- The accumulator is never masked: what no longer fits is shifted out. -/
def takeByte (pending : Nat × UInt32 × String) (b : UInt8) : Nat × UInt32 × String :=
  let (bits, value, out) := pending
  let value := value <<< 8 ||| b.toUInt32
  let (bits, out) := pushDigits value (bits + 8) out
  (bits, value, out)

def toBase32 (bytes : Bytes) : String :=
  let (bits, value, out) := bytes.foldl takeByte (0, 0, "")
  if 0 < bits then pushDigit out (value <<< UInt32.ofNat (5 - bits)) else out

/-- `format!("%{:02X}", b)`. -/
def percentByte (b : UInt8) : List Char :=
  ['%', (Nat.digitChar (b.toNat / 16)).toUpper, (Nat.digitChar (b.toNat % 16)).toUpper]

def urlencode (s : String) : String :=
  String.ofList (s.toList.flatMap fun c =>
    if c.isAlphanum || c = '-' || c = '_' || c = '.' || c = '~' then [c]
    else (String.utf8EncodeChar c).flatMap percentByte)

def otpauthUri (secret : Bytes) (label issuer : String) : String :=
  let secretB32 := toBase32 secret
  let labelEnc := urlencode label
  let issuerEnc := urlencode issuer
  "otpauth://totp/" ++ issuerEnc ++ ":" ++ labelEnc ++ "?secret=" ++ secretB32 ++ "&issuer=" ++ issuerEnc ++
    "&algorithm=SHA1&digits=6&period=30"

end TrinoCore
