/-
The URL of an object and the path that is signed for it.  Both strip one leading
slash from the key and encode the rest; whatever the bytes of the key are, the
encoded form can be read back, so that keys do not share URLs.
-/
import CatKV.ByteString

namespace CatKV

/-- Unreserved characters, and `/` when it is not to be encoded. -/
def isSafe (encodeSlash : Bool) (byte : UInt8) : Bool :=
  (charByte 'A' ≤ byte && byte ≤ charByte 'Z') || (charByte 'a' ≤ byte && byte ≤ charByte 'z') ||
    (charByte '0' ≤ byte && byte ≤ charByte '9') ||
    byte == charByte '-' || byte == charByte '_' || byte == charByte '.' ||
    byte == charByte '~' || (!encodeSlash && byte == charByte '/')

def hexDigit (value : Nat) : UInt8 := (ascii "0123456789ABCDEF").getD value 0

def encodeByte (encodeSlash : Bool) (byte : UInt8) : Bytes :=
  if isSafe encodeSlash byte then [byte]
  else [charByte '%', hexDigit (byte.toNat / 16), hexDigit (byte.toNat % 16)]

def uriEncode (input : Bytes) (encodeSlash : Bool) : Bytes := input.flatMap (encodeByte encodeSlash)

structure S3Config where
  useSsl : Bool
  endpoint : Bytes
  bucket : Bytes

/-- One leading slash is dropped. -/
def normalizeKey (key : Bytes) : Bytes :=
  if key.head? = some (charByte '/') then key.tail else key

namespace S3Config

variable (config : S3Config)

def scheme : Bytes := ascii (if config.useSsl then "https://" else "http://")

def buildUrl (key : Bytes) : Bytes :=
  let normalized := normalizeKey key
  let path := if normalized ≠ [] then
    config.bucket ++ [charByte '/'] ++ uriEncode normalized false
    else config.bucket
  config.scheme ++ config.endpoint ++ ascii "/" ++ path

/-- The path of `sign_request`. -/
def canonicalUri (key : Bytes) : Bytes :=
  let encodedKey := uriEncode (normalizeKey key) false
  let uri := ascii "/" ++ config.bucket
  if encodedKey ≠ [] then uri ++ [charByte '/'] ++ encodedKey else uri

end S3Config

/-! Reading back. -/

def hexValue (byte : UInt8) : Nat := (ascii "0123456789ABCDEF").idxOf byte

def percentDecode : Bytes → Bytes
  | first :: rest =>
    if first = charByte '%' then
      match rest with
      | high :: low :: rest =>
        UInt8.ofNat (16 * hexValue high + hexValue low) :: percentDecode rest
      | rest => first :: rest
    else first :: percentDecode rest
  | [] => []

/-- Safe characters and `%HH` triples. -/
inductive Encoded : Bytes → Prop
  | nil : Encoded []
  | safe {byte : UInt8} {rest : Bytes} (hsafe : isSafe false byte = true)
      (hrest : Encoded rest) : Encoded (byte :: rest)
  | triple {high low : Nat} {rest : Bytes} (hhigh : high < 16) (hlow : low < 16)
      (hrest : Encoded rest) :
      Encoded (charByte '%' :: hexDigit high :: hexDigit low :: rest)

theorem hexValue_hexDigit {value : Nat} (hlt : value < 16) : hexValue (hexDigit value) = value := by
  have hall : ∀ digit < 16, hexValue (hexDigit digit) = digit := by decide
  exact hall value hlt

theorem encoded_uriEncode (input : Bytes) : Encoded (uriEncode input false) := by
  induction input with
  | nil => exact .nil
  | cons byte rest ih =>
    rw [uriEncode, List.flatMap_cons, encodeByte]
    have hbyte : byte.toNat < 256 := byte.toNat_lt
    split
    · next hsafe => exact .safe hsafe ih
    · exact .triple (by omega) (by omega) ih

theorem percentDecode_encodeByte (byte : UInt8) (rest : Bytes) :
    percentDecode (encodeByte false byte ++ rest) = byte :: percentDecode rest := by
  have hbyte : byte.toNat < 256 := byte.toNat_lt
  rw [encodeByte]
  split
  · next hsafe =>
    have hplain : byte ≠ charByte '%' := by
      rintro rfl
      exact absurd hsafe (by decide)
    rw [List.singleton_append, percentDecode.eq_def]
    exact if_neg hplain
  · have hvalue : UInt8.ofNat (16 * (byte.toNat / 16) + byte.toNat % 16) = byte := by
      rw [Nat.div_add_mod]
      exact UInt8.ofNat_toNat
    simp only [List.cons_append, List.nil_append, percentDecode, if_true]
    rw [hexValue_hexDigit (by omega), hexValue_hexDigit (by omega), hvalue]

theorem percentDecode_uriEncode (input : Bytes) :
    percentDecode (uriEncode input false) = input := by
  induction input with
  | nil => rfl
  | cons byte rest ih =>
    rw [uriEncode, List.flatMap_cons, percentDecode_encodeByte]
    exact congrArg (byte :: ·) ih

theorem uriEncode_eq_nil_iff {input : Bytes} : uriEncode input false = [] ↔ input = [] := by
  constructor
  · intro hnil
    rw [← percentDecode_uriEncode input, hnil]
    rfl
  · rintro rfl
    rfl

theorem normalizeKey_cases (key : Bytes) :
    key = normalizeKey key ∨ key = charByte '/' :: normalizeKey key := by
  unfold normalizeKey
  split
  · next hslash => exact Or.inr (List.eq_cons_of_mem_head? hslash)
  · exact Or.inl rfl

theorem S3Config.buildUrl_eq (config : S3Config) (key : Bytes) : config.buildUrl key =
    config.scheme ++ config.endpoint ++ config.canonicalUri key := by
  simp only [buildUrl, canonicalUri, ne_eq, uriEncode_eq_nil_iff]
  split
  · simp only [List.append_assoc]
  · simp only [List.append_assoc]

theorem S3Config.normalizeKey_of_buildUrl {config : S3Config}
    {key other : Bytes} (hsame : config.buildUrl key = config.buildUrl other) :
    normalizeKey key = normalizeKey other := by
  rw [buildUrl_eq, buildUrl_eq, List.append_cancel_left_eq] at hsame
  have hencoded : uriEncode (normalizeKey key) false = uriEncode (normalizeKey other) false := by
    simp only [canonicalUri, List.append_assoc] at hsame
    split at hsame
    · split at hsame
      · simpa using hsame
      · simp at hsame
    · next hkey =>
      split at hsame
      · simp at hsame
      · next hother => rw [not_not.mp hkey, not_not.mp hother]
  rw [← percentDecode_uriEncode (normalizeKey key), hencoded, percentDecode_uriEncode]

/-- For every configuration and key: what is requested is what is signed, the
encoded key has only safe characters and triples and can be read back, and keys
with one URL differ by a leading slash at most. -/
theorem signed_eq_requested (config : S3Config) (key : Bytes) : config.buildUrl key =
      config.scheme ++ config.endpoint ++ config.canonicalUri key ∧
    Encoded (uriEncode key false) ∧
    percentDecode (uriEncode key false) = key ∧
    ∀ other, config.buildUrl key = config.buildUrl other →
      key = other ∨ key = charByte '/' :: other ∨ charByte '/' :: key = other := by
  refine ⟨config.buildUrl_eq key, encoded_uriEncode key,
    percentDecode_uriEncode key, fun other hsame => ?_⟩
  have hnormalized := S3Config.normalizeKey_of_buildUrl hsame
  rcases normalizeKey_cases key with hkey | hkey
  · rcases normalizeKey_cases other with hother | hother
    · exact Or.inl (hkey.trans (hnormalized.trans hother.symm))
    · right; right
      rw [hother, ← hnormalized, ← hkey]
  · rcases normalizeKey_cases other with hother | hother
    · right; left
      rw [hkey, hnormalized, ← hother]
    · exact Or.inl (by rw [hkey, hother, hnormalized])

end CatKV
