import Springtale.Lib.Frame

/-! Encrypted vault regions: the plaintext envelope, its padding, and both ways to write one. -/
namespace Springtale.Crypto

open Springtale.Lib

abbrev Bytes := List UInt8

abbrev Salt := Vector UInt8 16
abbrev Nonce := Vector UInt8 24
abbrev Key := Vector UInt8 32

inductive CryptoError where
  | vaultLocked
  | vaultDecryptionFailed
  | keyGeneration (message : String)
  | serialization (message : String)
deriving DecidableEq

inductive AeadAlgorithm where
  | xChaCha20Poly1305
deriving DecidableEq

inductive KdfAlgorithm where
  | argon2id
deriving DecidableEq

structure Argon2Params where
  memoryKib : Nat
  iterations : Nat
  parallelism : Nat
deriving DecidableEq

/-- The authenticated payload of a region; the entry map is a parameter. -/
structure VaultPlaintext (Entries : Type) where
  aead : AeadAlgorithm
  kdf : KdfAlgorithm
  kdfParams : Argon2Params
  entries : Entries

def workspaceArgon2Params : Argon2Params := ⟨65536, 3, 4⟩

def VaultPlaintext.withDefaults {Entries : Type} (entries : Entries) : VaultPlaintext Entries :=
  ⟨.xChaCha20Poly1305, .argon2id, workspaceArgon2Params, entries⟩

/-- The AEAD and the key derivation, as the vault calls them. -/
structure Primitives where
  deriveKey : Bytes → Salt → Except CryptoError Key
  encrypt : Key → Nonce → Bytes → Option Bytes
  decrypt : Key → Nonce → Bytes → Option Bytes

/-- What `serde_json` does with the envelope, and with the bare map of old vaults. -/
structure Serde (Entries : Type) where
  toVec : VaultPlaintext Entries → Except String Bytes
  fromSlice : Bytes → Option (VaultPlaintext Entries)
  fromSliceMap : Bytes → Except String Entries

/-- The AEAD decrypts what it encrypted, under a tag of sixteen bytes. -/
structure Primitives.Lawful (prims : Primitives) : Prop where
  decrypt_encrypt : ∀ {key nonce plaintext ciphertext},
    prims.encrypt key nonce plaintext = some ciphertext →
      prims.decrypt key nonce ciphertext = some plaintext
  length_encrypt : ∀ {key nonce plaintext ciphertext},
    prims.encrypt key nonce plaintext = some ciphertext →
      ciphertext.length = plaintext.length + 16

/-- `serde_json` reads back what it wrote. -/
structure Serde.Lawful {Entries : Type} (serde : Serde Entries) : Prop where
  fromSlice_toVec : ∀ {envelope bytes},
    serde.toVec envelope = .ok bytes → serde.fromSlice bytes = some envelope

def regionSize : Nat := 65536
def regionHeaderSize : Nat := 16 + 24
def tagSize : Nat := 16
def maxPlaintextSize : Nat := regionSize - tagSize
def lenOffset : Nat := maxPlaintextSize - 8

variable {Entries : Type}

/-- What both writers do once they hold a key: serialize, pad, encrypt and put the header on. -/
def sealRegion (prims : Primitives) (serde : Serde Entries) (key : Key) (salt : Salt)
    (nonce : Nonce) (random : Nat → UInt8) (entries : Entries) : Except CryptoError Bytes :=
  match serde.toVec (VaultPlaintext.withDefaults entries) with
  | .error e => .error (.serialization e)
  | .ok plaintext =>
    if plaintext.length > maxPlaintextSize then
      .error (.serialization "vault data too large for region")
    else
      match prims.encrypt key nonce (frame 8 maxPlaintextSize random plaintext) with
      | none => .error (.keyGeneration "region encryption failed")
      | some ciphertext => .ok (salt.toList ++ nonce.toList ++ ciphertext)

/-- Derives the key from a passphrase and a fresh salt. -/
def encryptRegion (prims : Primitives) (serde : Serde Entries) (passphrase : Bytes) (salt : Salt)
    (nonce : Nonce) (random : Nat → UInt8) (entries : Entries) : Except CryptoError Bytes :=
  match prims.deriveKey passphrase salt with
  | .error e => .error e
  | .ok key => sealRegion prims serde key salt nonce random entries

/-- Re-encrypts under a key and salt the vault already holds. -/
def encryptRegionWithKey (prims : Primitives) (serde : Serde Entries) (key : Key) (salt : Salt)
    (nonce : Nonce) (random : Nat → UInt8) (entries : Entries) : Except CryptoError Bytes :=
  sealRegion prims serde key salt nonce random entries

/-- The current envelope if it parses, otherwise the bare map of a vault from before it. -/
def decodeRegionEntries (serde : Serde Entries) (plaintext : Bytes) : Except CryptoError Entries :=
  match serde.fromSlice plaintext with
  | some envelope =>
    if envelope.aead ≠ .xChaCha20Poly1305 ∨ envelope.kdf ≠ .argon2id then
      .error .vaultDecryptionFailed
    else .ok envelope.entries
  | none => (serde.fromSliceMap plaintext).mapError .serialization

def decryptRegion (prims : Primitives) (serde : Serde Entries) (region passphrase : Bytes) :
    Except CryptoError (Entries × Salt × Key) :=
  if h : region.length ≠ regionHeaderSize + regionSize then .error .vaultDecryptionFailed
  else
    let salt : Salt := ⟨(region.take 16).toArray, by
      simp only [List.size_toArray, List.length_take]
      simp only [regionHeaderSize, regionSize] at h
      omega⟩
    let nonce : Nonce := ⟨((region.drop 16).take 24).toArray, by
      simp only [List.size_toArray, List.length_take, List.length_drop]
      simp only [regionHeaderSize, regionSize] at h
      omega⟩
    match prims.deriveKey passphrase salt with
    | .error e => .error e
    | .ok key =>
      match prims.decrypt key nonce (region.drop 40) with
      | none => .error .vaultDecryptionFailed
      | some padded =>
        match unframe 8 maxPlaintextSize padded with
        | none => .error .vaultDecryptionFailed
        | some plaintext => (decodeRegionEntries serde plaintext).map (·, salt, key)

variable {prims : Primitives} {serde : Serde Entries}

theorem decodeRegionEntries_toVec (hserde : serde.Lawful) {entries : Entries} {plaintext : Bytes}
    (h : serde.toVec (VaultPlaintext.withDefaults entries) = .ok plaintext) :
    decodeRegionEntries serde plaintext = .ok entries := by
  simp [decodeRegionEntries, hserde.fromSlice_toVec h, VaultPlaintext.withDefaults]

/-- A region that was written is a header and the encryption of a frame that fits. -/
theorem sealRegion_eq_ok {key : Key} {salt : Salt} {nonce : Nonce} {random : Nat → UInt8}
    {entries : Entries} {region : Bytes}
    (h : sealRegion prims serde key salt nonce random entries = .ok region) :
    ∃ plaintext ciphertext, serde.toVec (VaultPlaintext.withDefaults entries) = .ok plaintext ∧
      plaintext.length ≤ maxPlaintextSize ∧
      prims.encrypt key nonce (frame 8 maxPlaintextSize random plaintext) = some ciphertext ∧
      region = salt.toList ++ nonce.toList ++ ciphertext := by
  unfold sealRegion at h
  cases hvec : serde.toVec (VaultPlaintext.withDefaults entries) with
  | error e => simp [hvec] at h
  | ok plaintext =>
    simp only [hvec] at h
    split at h
    · cases h
    · rename_i hfits
      cases henc : prims.encrypt key nonce (frame 8 maxPlaintextSize random plaintext) with
      | none => simp [henc] at h
      | some ciphertext =>
        rw [henc] at h
        exact ⟨plaintext, ciphertext, rfl, by omega, henc, (Except.ok.inj h).symm⟩

/-- The header parses back, so decryption sees the frame the writer made. -/
theorem decryptRegion_of_parts (hprims : prims.Lawful) {passphrase : Bytes} {key : Key}
    {salt : Salt} {nonce : Nonce} {padded ciphertext : Bytes}
    (hkey : prims.deriveKey passphrase salt = .ok key) (hpadded : padded.length = maxPlaintextSize)
    (henc : prims.encrypt key nonce padded = some ciphertext) :
    decryptRegion prims serde (salt.toList ++ nonce.toList ++ ciphertext) passphrase =
      match unframe 8 maxPlaintextSize padded with
      | none => .error .vaultDecryptionFailed
      | some plaintext => (decodeRegionEntries serde plaintext).map (·, salt, key) := by
  have hlength := hprims.length_encrypt henc
  have htotal : (salt.toList ++ nonce.toList ++ ciphertext).length =
      regionHeaderSize + regionSize := by
    simp [hlength, hpadded, regionHeaderSize, maxPlaintextSize, regionSize, tagSize]
  have hsalt : (salt.toList ++ nonce.toList ++ ciphertext).take 16 = salt.toList := by
    rw [List.append_assoc, List.take_left' (by simp)]
  have hnonce : ((salt.toList ++ nonce.toList ++ ciphertext).drop 16).take 24 = nonce.toList := by
    rw [List.append_assoc, List.drop_left' (by simp), List.take_left' (by simp)]
  have hcipher : (salt.toList ++ nonce.toList ++ ciphertext).drop 40 = ciphertext :=
    List.drop_left' (by simp)
  simp only [decryptRegion, htotal, ne_eq, not_true_eq_false, dite_false, hsalt, hnonce, hcipher,
    Vector.toArray_toList, Vector.mk_toArray, hkey, hprims.decrypt_encrypt henc]

/-- What decryption makes of a region that either writer produced. -/
theorem decryptRegion_sealRegion (hprims : prims.Lawful) (hserde : serde.Lawful)
    {passphrase plaintext region : Bytes} {key : Key} {salt : Salt} {nonce : Nonce}
    {random : Nat → UInt8} {entries : Entries}
    (hkey : prims.deriveKey passphrase salt = .ok key)
    (hvec : serde.toVec (VaultPlaintext.withDefaults entries) = .ok plaintext)
    (h : sealRegion prims serde key salt nonce random entries = .ok region) :
    decryptRegion prims serde region passphrase =
      if plaintext.length ≤ lenOffset then .ok (entries, salt, key)
      else .error .vaultDecryptionFailed := by
  obtain ⟨plaintext', ciphertext, hvec', hfits, henc, rfl⟩ := sealRegion_eq_ok h
  obtain rfl : plaintext = plaintext' := by simpa [hvec] using hvec'
  have hmax : maxPlaintextSize = 65520 := rfl
  have hlen : maxPlaintextSize - 8 = lenOffset := rfl
  have hframe : (frame 8 maxPlaintextSize random plaintext).length = maxPlaintextSize :=
    length_frame (by omega) hfits
  rw [decryptRegion_of_parts hprims hkey hframe henc,
    unframe_frame hfits (by norm_num; omega), hlen]
  by_cases hroom : plaintext.length ≤ lenOffset
  · simp [hroom, decodeRegionEntries_toVec hserde hvec, Except.map]
  · simp [hroom]

/-- A region written for a passphrase: sealed afresh, or saved again under the key in memory. -/
inductive Written (prims : Primitives) (serde : Serde Entries) (passphrase : Bytes) (salt : Salt)
    (key : Key) (entries : Entries) (region : Bytes) : Prop where
  | created {nonce : Nonce} {random : Nat → UInt8}
      (hkey : prims.deriveKey passphrase salt = .ok key)
      (h : encryptRegion prims serde passphrase salt nonce random entries = .ok region)
  | saved {nonce : Nonce} {random : Nat → UInt8}
      (hkey : prims.deriveKey passphrase salt = .ok key)
      (h : encryptRegionWithKey prims serde key salt nonce random entries = .ok region)

theorem Written.sealed {passphrase region : Bytes} {salt : Salt} {key : Key} {entries : Entries}
    (h : Written prims serde passphrase salt key entries region) :
    prims.deriveKey passphrase salt = .ok key ∧ ∃ nonce random,
      sealRegion prims serde key salt nonce random entries = .ok region := by
  cases h with
  | @created nonce random hkey h =>
    refine ⟨hkey, nonce, random, ?_⟩
    simpa [encryptRegion, hkey] using h
  | @saved nonce random hkey h => exact ⟨hkey, nonce, random, h⟩

/-- Whether the serialized envelope leaves the bytes of the length trailer free. -/
def LeavesTrailerFree (serde : Serde Entries) (entries : Entries) : Prop :=
  ∀ plaintext, serde.toVec (VaultPlaintext.withDefaults entries) = .ok plaintext →
    plaintext.length ≤ lenOffset

/-- A written region opens to its entries exactly when the envelope stays clear of the trailer. -/
theorem decryptRegion_written_iff (hprims : prims.Lawful) (hserde : serde.Lawful)
    {passphrase region : Bytes} {salt : Salt} {key : Key} {entries : Entries}
    (h : Written prims serde passphrase salt key entries region) :
    decryptRegion prims serde region passphrase = .ok (entries, salt, key) ↔
      LeavesTrailerFree serde entries := by
  obtain ⟨hkey, nonce, random, hseal⟩ := h.sealed
  obtain ⟨plaintext, -, hvec, -, -, -⟩ := sealRegion_eq_ok hseal
  rw [decryptRegion_sealRegion hprims hserde hkey hvec hseal]
  constructor
  · intro hopen plaintext' hvec'
    obtain rfl : plaintext = plaintext' := by simpa [hvec] using hvec'
    by_contra hlong
    simp [hlong] at hopen
  · intro hfree
    rw [if_pos (hfree plaintext hvec)]

end Springtale.Crypto
