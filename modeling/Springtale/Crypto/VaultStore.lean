import Springtale.Crypto.VaultText
import Springtale.Lib.HashMap

/-! Vault files of one region and of two: opening them, editing the entries, and saving. -/
namespace Springtale.Crypto

open Springtale.Lib

namespace EntryMap

def empty : EntryMap := ⟨[], List.nodup_nil⟩

def insert (m : EntryMap) (key : String) (value : Bytes) : EntryMap :=
  ⟨HashMap.insertEntry m.entries key value, HashMap.insertEntry_nodup m.nodup key value⟩

theorem remove_nodup (m : EntryMap) (key : String) :
    ((m.entries.filter (·.1 ≠ key)).map Prod.fst).Nodup :=
  m.nodup.sublist (List.filter_sublist.map Prod.fst)

def remove (m : EntryMap) (key : String) : EntryMap :=
  ⟨m.entries.filter (·.1 ≠ key), m.remove_nodup key⟩

end EntryMap

inductive VaultSession where
  | real
  | duress
deriving DecidableEq

def VaultSession.other : VaultSession → VaultSession
  | .real => .duress
  | .duress => .real

def VaultSession.regionIndex : VaultSession → Nat
  | .real => 0
  | .duress => 1

def regionTotal : Nat := regionHeaderSize + regionSize

def dualVaultFileSize : Nat := 2 * (regionHeaderSize + regionSize)

def isDualVault (dataLen : Nat) : Bool := dataLen = dualVaultFileSize

/-- The two regions of a file, one after the other. -/
def half : VaultSession → Bytes → Bytes
  | .real, data => data.take regionTotal
  | .duress, data => data.drop regionTotal

/-- A vault that has a file; it is locked when it has no entries. -/
structure Vault where
  entries : Option EntryMap
  encryptionKey : Option Key
  salt : Salt
  session : VaultSession
  inactiveRegionBytes : Option Bytes
  activeRegionIndex : Nat

section Store

variable (prims : Primitives) (serde : Serde EntryMap)

/-- Both regions are tried, the first is preferred. -/
def openDualVault (data passphrase : Bytes) :
    Except CryptoError (EntryMap × Salt × Key × VaultSession) :=
  if data.length ≠ dualVaultFileSize then .error .vaultDecryptionFailed
  else
    match decryptRegion prims serde (half .real data) passphrase,
      decryptRegion prims serde (half .duress data) passphrase with
    | .ok (entries, salt, key), _ => .ok (entries, salt, key, .real)
    | .error _, .ok (entries, salt, key) => .ok (entries, salt, key, .duress)
    | .error _, .error _ => .error .vaultDecryptionFailed

namespace Vault

def create (passphrase : Bytes) (salt : Salt) : Except CryptoError Vault :=
  match prims.deriveKey passphrase salt with
  | .error e => .error e
  | .ok key => .ok ⟨some .empty, some key, salt, .real, none, 0⟩

def openDual (data passphrase : Bytes) : Except CryptoError Vault :=
  match openDualVault prims serde data passphrase with
  | .error e => .error e
  | .ok (entries, salt, key, session) =>
    .ok ⟨some entries, some key, salt, session, some (half session.other data),
      session.regionIndex⟩

theorem size_salt {data : Bytes} (h : ¬ data.length < 16 + 24 + 16) :
    (data.take 16).toArray.size = 16 := by
  simp only [List.size_toArray, List.length_take]
  omega

theorem size_nonce {data : Bytes} (h : ¬ data.length < 16 + 24 + 16) :
    ((data.drop 16).take 24).toArray.size = 24 := by
  simp only [List.size_toArray, List.length_take, List.length_drop]
  omega

def openSingle (data passphrase : Bytes) : Except CryptoError Vault :=
  if h : data.length < 16 + 24 + 16 then .error .vaultDecryptionFailed
  else
    let salt : Salt := ⟨(data.take 16).toArray, size_salt h⟩
    let nonce : Nonce := ⟨((data.drop 16).take 24).toArray, size_nonce h⟩
    match prims.deriveKey passphrase salt with
    | .error e => .error e
    | .ok key =>
      match prims.decrypt key nonce (data.drop 40) with
      | none => .error .vaultDecryptionFailed
      | some plaintext =>
        match decodeRegionEntries serde plaintext with
        | .error e => .error e
        | .ok entries => .ok ⟨some entries, some key, salt, .real, none, 0⟩

/-- The kind of a file is told by its length. -/
def «open» (data passphrase : Bytes) : Except CryptoError Vault :=
  if isDualVault data.length then openDual prims serde data passphrase
  else openSingle prims serde data passphrase

def set (key : String) (value : Bytes) (v : Vault) : Except CryptoError Vault :=
  match v.entries with
  | none => .error .vaultLocked
  | some entries => .ok { v with entries := some (entries.insert key value) }

def remove (key : String) (v : Vault) : Except CryptoError Vault :=
  match v.entries with
  | none => .error .vaultLocked
  | some entries => .ok { v with entries := some (entries.remove key) }

def lock (v : Vault) : Vault := { v with entries := none, encryptionKey := none }

/-- The file of a vault with one region. -/
def sealSingle (key : Key) (salt : Salt) (nonce : Nonce) (entries : EntryMap) :
    Except CryptoError Bytes :=
  match serde.toVec (VaultPlaintext.withDefaults entries) with
  | .error e => .error (.serialization e)
  | .ok plaintext =>
    match prims.encrypt key nonce plaintext with
    | none => .error (.keyGeneration "encryption failed")
    | some ciphertext => .ok (salt.toList ++ nonce.toList ++ ciphertext)

/-- What `save` puts in the place of the file. -/
def save (nonce : Nonce) (random : Nat → UInt8) (v : Vault) : Except CryptoError Bytes :=
  match v.entries, v.encryptionKey with
  | none, _ => .error .vaultLocked
  | some _, none => .error .vaultLocked
  | some entries, some key =>
    match v.inactiveRegionBytes with
    | none => sealSingle prims serde key v.salt nonce entries
    | some inactive =>
      match encryptRegionWithKey prims serde key v.salt nonce random entries with
      | .error e => .error e
      | .ok active =>
        if v.activeRegionIndex = 0 then .ok (active ++ inactive) else .ok (inactive ++ active)

end Vault

end Store

section Files

variable {prims : Primitives} {serde : Serde EntryMap}

theorem isDualVault_iff {n : Nat} : isDualVault n = true ↔ n = dualVaultFileSize := by
  simp [isDualVault]

theorem length_half {file : Bytes} (hlength : file.length = dualVaultFileSize) (r : VaultSession) :
    (half r file).length = regionTotal := by
  have htotal : dualVaultFileSize = regionTotal + regionTotal := rfl
  cases r with
  | real =>
    rw [half, List.length_take]
    omega
  | duress =>
    rw [half, List.length_drop]
    omega

/-- The file with an active region in its place and another in the other. -/
def joined (r : VaultSession) (active inactive : Bytes) : Bytes :=
  match r with
  | .real => active ++ inactive
  | .duress => inactive ++ active

theorem half_joined {active inactive : Bytes} (hactive : active.length = regionTotal)
    (hinactive : inactive.length = regionTotal) (r : VaultSession) :
    half r (joined r active inactive) = active ∧
      half r.other (joined r active inactive) = inactive := by
  cases r with
  | real => exact ⟨List.take_left' hactive, List.drop_left' hactive⟩
  | duress => exact ⟨List.drop_left' hinactive, List.take_left' hinactive⟩

theorem length_joined {active inactive : Bytes} (hactive : active.length = regionTotal)
    (hinactive : inactive.length = regionTotal) (r : VaultSession) :
    (joined r active inactive).length = dualVaultFileSize := by
  have htotal : dualVaultFileSize = regionTotal + regionTotal := rfl
  cases r with
  | real =>
    rw [joined, List.length_append]
    omega
  | duress =>
    rw [joined, List.length_append]
    omega

/-- A passphrase opens a region if it decrypts it, and does not decrypt the first for the
second. -/
theorem open_dual {file passphrase : Bytes} (hlength : file.length = dualVaultFileSize)
    {r : VaultSession} {entries : EntryMap} {salt : Salt} {key : Key}
    (hopens : decryptRegion prims serde (half r file) passphrase = .ok (entries, salt, key))
    (hrejects : r = .duress → ∃ e, decryptRegion prims serde (half .real file) passphrase =
      .error e) :
    Vault.open prims serde file passphrase =
      .ok ⟨some entries, some key, salt, r, some (half r.other file), r.regionIndex⟩ := by
  rw [Vault.open, if_pos (isDualVault_iff.mpr hlength), Vault.openDual, openDualVault,
    if_neg (not_not.mpr hlength)]
  cases r with
  | real => rw [hopens]
  | duress =>
    obtain ⟨e, he⟩ := hrejects rfl
    rw [hopens, he]

theorem open_dual_eq_ok {file passphrase : Bytes} (hlength : file.length = dualVaultFileSize)
    {v : Vault} (hopen : Vault.open prims serde file passphrase = .ok v) :
    ∃ entries salt key, v.entries = some entries ∧
      decryptRegion prims serde (half v.session file) passphrase = .ok (entries, salt, key) := by
  rw [Vault.open, if_pos (isDualVault_iff.mpr hlength), Vault.openDual, openDualVault,
    if_neg (not_not.mpr hlength)] at hopen
  cases hreal : decryptRegion prims serde (half .real file) passphrase with
  | ok opened =>
    obtain ⟨entries, salt, key⟩ := opened
    rw [hreal] at hopen
    obtain rfl := Except.ok.inj hopen
    exact ⟨entries, salt, key, rfl, hreal⟩
  | error e =>
    cases hdecoy : decryptRegion prims serde (half .duress file) passphrase with
    | ok opened =>
      obtain ⟨entries, salt, key⟩ := opened
      rw [hreal, hdecoy] at hopen
      obtain rfl := Except.ok.inj hopen
      exact ⟨entries, salt, key, rfl, hdecoy⟩
    | error e' =>
      rw [hreal, hdecoy] at hopen
      cases hopen

/-- A region that decrypts names the key that its passphrase derives. -/
theorem deriveKey_of_decryptRegion {region passphrase : Bytes} {entries : EntryMap} {salt : Salt}
    {key : Key} (h : decryptRegion prims serde region passphrase = .ok (entries, salt, key)) :
    prims.deriveKey passphrase salt = .ok key := by
  simp only [decryptRegion] at h
  split at h
  · cases h
  · split at h
    · cases h
    · rename_i hkey
      split at h
      · cases h
      · split at h
        · cases h
        · rename_i plaintext _
          cases hdecode : decodeRegionEntries serde plaintext with
          | error e =>
            rw [hdecode] at h
            cases h
          | ok decoded =>
            rw [hdecode] at h
            cases h
            exact hkey

theorem length_sealRegion (hprims : prims.Lawful) {key : Key} {salt : Salt} {nonce : Nonce}
    {random : Nat → UInt8} {entries : EntryMap} {region : Bytes}
    (h : sealRegion prims serde key salt nonce random entries = .ok region) :
    region.length = regionTotal := by
  obtain ⟨plaintext, ciphertext, -, hfits, henc, rfl⟩ := sealRegion_eq_ok h
  have hmax : maxPlaintextSize = 65520 := rfl
  have hframe : (frame 8 maxPlaintextSize random plaintext).length = maxPlaintextSize :=
    length_frame (by omega) hfits
  have hlength := hprims.length_encrypt henc
  have htotal : regionTotal = 65576 := rfl
  simp only [List.length_append, Vector.length_toList]
  omega

/-- A key that cannot decrypt what another has encrypted does not open its region. -/
theorem decryptRegion_wrong_key (hprims : prims.Lawful) {passphrase : Bytes} {key : Key}
    {salt : Salt} {nonce : Nonce} {random : Nat → UInt8} {entries : EntryMap} {region : Bytes}
    (h : sealRegion prims serde key salt nonce random entries = .ok region)
    (hwrong : ∀ key', prims.deriveKey passphrase salt = .ok key' → ∀ plaintext ciphertext,
      prims.encrypt key nonce plaintext = some ciphertext →
        prims.decrypt key' nonce ciphertext = none) :
    ∃ e, decryptRegion prims serde region passphrase = .error e := by
  obtain ⟨plaintext, ciphertext, -, -, henc, rfl⟩ := sealRegion_eq_ok h
  have htotal := length_sealRegion hprims h
  have hsalt : (salt.toList ++ nonce.toList ++ ciphertext).take 16 = salt.toList := by
    rw [List.append_assoc, List.take_left' (by simp)]
  have hnonce : ((salt.toList ++ nonce.toList ++ ciphertext).drop 16).take 24 = nonce.toList := by
    rw [List.append_assoc, List.drop_left' (by simp), List.take_left' (by simp)]
  have hcipher : (salt.toList ++ nonce.toList ++ ciphertext).drop 40 = ciphertext :=
    List.drop_left' (by simp)
  rw [regionTotal] at htotal
  cases hkey : prims.deriveKey passphrase salt with
  | error e =>
    refine ⟨e, ?_⟩
    simp only [decryptRegion, htotal, ne_eq, not_true_eq_false, dite_false, hsalt,
      Vector.toArray_toList, Vector.mk_toArray, hkey]
  | ok key' =>
    refine ⟨.vaultDecryptionFailed, ?_⟩
    simp only [decryptRegion, htotal, ne_eq, not_true_eq_false, dite_false, hsalt, hnonce,
      hcipher, Vector.toArray_toList, Vector.mk_toArray, hkey,
      hwrong key' hkey _ _ henc]

end Files

end Springtale.Crypto
