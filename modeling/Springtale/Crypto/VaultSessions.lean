import Springtale.Crypto.VaultStore
import Springtale.Lib.Transition

/-! Both sessions of a dual vault at work on one file: what a save leaves of the other region. -/
namespace Springtale.Crypto

open Springtale.Lib

inductive VaultCall where
  | «open» (session : VaultSession)
  | set (i : Nat) (key : String) (value : Bytes)
  | remove (i : Nat) (key : String)
  | lock (i : Nat)
  | save (i : Nat) (nonce : Nonce) (random : Nat → UInt8)

/-- The file, the open vaults, and for each session the entries of its last save. -/
structure Disk where
  file : Bytes
  sessions : List Vault
  saved : VaultSession → EntryMap

section Runs

variable (prims : Primitives) (serde : Serde EntryMap) (pass : VaultSession → Bytes)

/-- A call that fails changes nothing. -/
def VaultCall.run (d : Disk) : VaultCall → Disk
  | .open session =>
    match Vault.open prims serde d.file (pass session) with
    | .error _ => d
    | .ok v => { d with sessions := d.sessions ++ [v] }
  | .set i key value =>
    match d.sessions[i]? with
    | none => d
    | some v =>
      match v.set key value with
      | .error _ => d
      | .ok v' => { d with sessions := d.sessions.set i v' }
  | .remove i key =>
    match d.sessions[i]? with
    | none => d
    | some v =>
      match v.remove key with
      | .error _ => d
      | .ok v' => { d with sessions := d.sessions.set i v' }
  | .lock i =>
    match d.sessions[i]? with
    | none => d
    | some v => { d with sessions := d.sessions.set i v.lock }
  | .save i nonce random =>
    match d.sessions[i]? with
    | none => d
    | some v =>
      match v.save prims serde nonce random with
      | .error _ => d
      | .ok data =>
        { d with
          file := data
          saved := Function.update d.saved v.session (v.entries.getD (d.saved v.session)) }

def after (start : Disk) (calls : List VaultCall) : Disk :=
  calls.foldl (VaultCall.run prims serde pass) start

/-- The file has its length, and each passphrase opens its region to what was last saved there. -/
structure Disk.Intact (d : Disk) : Prop where
  length : d.file.length = dualVaultFileSize
  reopens : ∀ r, ∃ v, Vault.open prims serde d.file (pass r) = .ok v ∧
    v.entries = some (d.saved r) ∧ v.session = r

/-- A save leaves the other region's bytes as they were. -/
def OtherKept (d : Disk) (c : VaultCall) (d' : Disk) : Prop :=
  ∀ i nonce random v, c = .save i nonce random → d.sessions[i]? = some v →
    half v.session.other d'.file = half v.session.other d.file

def Isolated (start : Disk) (calls : List VaultCall) : Prop :=
  (after prims serde pass start calls).Intact prims serde pass ∧
    ∀ pre c, calls = pre ++ [c] →
      OtherKept (after prims serde pass start pre) c (after prims serde pass start calls)

/-- A save that can be made has an envelope that leaves the trailer free, and the other region is
still as the session found it. -/
def SavesCurrent (d : Disk) : VaultCall → Prop
  | .save i nonce random => ∀ v entries key plaintext, d.sessions[i]? = some v →
    v.entries = some entries → v.encryptionKey = some key →
    serde.toVec (VaultPlaintext.withDefaults entries) = .ok plaintext →
    plaintext.length ≤ maxPlaintextSize →
    (prims.encrypt key nonce (frame 8 maxPlaintextSize random plaintext)).isSome →
      plaintext.length ≤ lenOffset ∧
        v.inactiveRegionBytes = some (half v.session.other d.file)
  | _ => True

/-- A dual vault file with its passphrases, and what each of them opens. -/
structure DualFile (file : Bytes) (salt : VaultSession → Salt) (key : VaultSession → Key)
    (entries : VaultSession → EntryMap) : Prop where
  length : file.length = dualVaultFileSize
  opens : ∀ r, decryptRegion prims serde (half r file) (pass r) =
    .ok (entries r, salt r, key r)
  rejects : ∃ e, decryptRegion prims serde (half .real file) (pass .duress) = .error e

/-- The other passphrase's key does not decrypt what the real key has encrypted. -/
def RejectsWrongKey (salt : VaultSession → Salt) (key : VaultSession → Key) : Prop :=
  ∀ key', prims.deriveKey (pass .duress) (salt .real) = .ok key' → ∀ nonce plaintext ciphertext,
    prims.encrypt (key .real) nonce plaintext = some ciphertext →
      prims.decrypt key' nonce ciphertext = none

end Runs

variable {prims : Primitives} {serde : Serde EntryMap} {pass : VaultSession → Bytes}
  {salt : VaultSession → Salt} {key : VaultSession → Key}

/-- A session keeps its region's salt and key, and a region's bytes of the other. -/
structure Attached (salt : VaultSession → Salt) (key : VaultSession → Key) (v : Vault) : Prop where
  salt : v.salt = salt v.session
  key : ∀ k, v.encryptionKey = some k → k = key v.session
  index : v.activeRegionIndex = v.session.regionIndex
  inactive : ∃ b, v.inactiveRegionBytes = some b ∧ b.length = regionTotal

structure Disk.Sound (prims : Primitives) (serde : Serde EntryMap) (pass : VaultSession → Bytes)
    (salt : VaultSession → Salt) (key : VaultSession → Key) (d : Disk) : Prop where
  dual : DualFile prims serde pass d.file salt key d.saved
  attached : ∀ v ∈ d.sessions, Attached salt key v

theorem DualFile.open_eq {file : Bytes} {entries : VaultSession → EntryMap}
    (h : DualFile prims serde pass file salt key entries) (r : VaultSession) :
    Vault.open prims serde file (pass r) = .ok ⟨some (entries r), some (key r), salt r, r,
      some (half r.other file), r.regionIndex⟩ := by
  apply open_dual h.length (h.opens r)
  rintro rfl
  exact h.rejects

theorem Disk.Sound.intact {d : Disk} (h : d.Sound prims serde pass salt key) :
    d.Intact prims serde pass :=
  ⟨h.dual.length, fun r => ⟨_, h.dual.open_eq r, rfl, rfl⟩⟩

theorem Attached.set {v v' : Vault} (h : Attached salt key v) {name : String} {value : Bytes}
    (hset : v.set name value = .ok v') : Attached salt key v' := by
  rw [Vault.set] at hset
  cases hentries : v.entries with
  | none =>
    rw [hentries] at hset
    cases hset
  | some entries =>
    rw [hentries] at hset
    cases hset
    exact ⟨h.salt, h.key, h.index, h.inactive⟩

theorem Attached.remove {v v' : Vault} (h : Attached salt key v) {name : String}
    (hremove : v.remove name = .ok v') : Attached salt key v' := by
  rw [Vault.remove] at hremove
  cases hentries : v.entries with
  | none =>
    rw [hentries] at hremove
    cases hremove
  | some entries =>
    rw [hentries] at hremove
    cases hremove
    exact ⟨h.salt, h.key, h.index, h.inactive⟩

theorem Attached.lock {v : Vault} (h : Attached salt key v) : Attached salt key v.lock :=
  ⟨h.salt, nofun, h.index, h.inactive⟩

theorem Disk.Sound.replace {d : Disk} (h : d.Sound prims serde pass salt key) (i : Nat) {v : Vault}
    (hv : Attached salt key v) :
    Disk.Sound prims serde pass salt key { d with sessions := d.sessions.set i v } := by
  refine ⟨h.dual, fun w hw => ?_⟩
  rcases List.mem_or_eq_of_mem_set hw with hw | rfl
  · exact h.attached w hw
  · exact hv

/-- What a save of an attached session writes. -/
theorem Attached.save_eq {v : Vault} (h : Attached salt key v) {entries : EntryMap} {k : Key}
    {inactive : Bytes} (hentries : v.entries = some entries) (hkey : v.encryptionKey = some k)
    (hinactive : v.inactiveRegionBytes = some inactive) (nonce : Nonce) (random : Nat → UInt8) :
    v.save prims serde nonce random =
      (sealRegion prims serde (key v.session) (salt v.session) nonce random entries).map
        fun active => joined v.session active inactive := by
  simp only [Vault.save, hentries, hkey, hinactive, encryptRegionWithKey, h.key k hkey, h.salt,
    h.index]
  cases sealRegion prims serde (key v.session) (salt v.session) nonce random entries with
  | error e => rfl
  | ok active =>
    cases v.session with
    | real => rfl
    | duress => rfl

/-- A call other than a save keeps the disk sound. -/
theorem Disk.Sound.edit {d : Disk} (h : d.Sound prims serde pass salt key) {c : VaultCall}
    (hedit : ∀ i nonce random, c ≠ .save i nonce random) :
    (c.run prims serde pass d).Sound prims serde pass salt key ∧
      (c.run prims serde pass d).file = d.file := by
  cases c with
  | «open» r =>
    simp only [VaultCall.run, h.dual.open_eq r]
    refine ⟨⟨h.dual, fun v hv => ?_⟩, trivial⟩
    rcases List.mem_append.mp hv with hv | hv
    · exact h.attached v hv
    · obtain rfl := List.mem_singleton.mp hv
      refine ⟨rfl, ?_, rfl, _, rfl, length_half h.dual.length r.other⟩
      rintro k hk
      exact (Option.some.inj hk).symm
  | set i name value =>
    simp only [VaultCall.run]
    split
    · exact ⟨h, rfl⟩
    · rename_i v hv
      split
      · exact ⟨h, rfl⟩
      · rename_i v' hset
        exact ⟨h.replace i ((h.attached v (List.mem_of_getElem? hv)).set hset), rfl⟩
  | remove i name =>
    simp only [VaultCall.run]
    split
    · exact ⟨h, rfl⟩
    · rename_i v hv
      split
      · exact ⟨h, rfl⟩
      · rename_i v' hremove
        exact ⟨h.replace i ((h.attached v (List.mem_of_getElem? hv)).remove hremove), rfl⟩
  | lock i =>
    simp only [VaultCall.run]
    split
    · exact ⟨h, rfl⟩
    · rename_i v hv
      exact ⟨h.replace i (h.attached v (List.mem_of_getElem? hv)).lock, rfl⟩
  | save i nonce random => exact absurd rfl (hedit i nonce random)

theorem sealRegion_isOk {k : Key} {s : Salt} {nonce : Nonce} {random : Nat → UInt8}
    {entries : EntryMap} {plaintext : Bytes}
    (hvec : serde.toVec (VaultPlaintext.withDefaults entries) = .ok plaintext)
    (hfits : plaintext.length ≤ maxPlaintextSize)
    (henc : (prims.encrypt k nonce (frame 8 maxPlaintextSize random plaintext)).isSome) :
    ∃ region, sealRegion prims serde k s nonce random entries = .ok region := by
  obtain ⟨ciphertext, henc⟩ := Option.isSome_iff_exists.mp henc
  refine ⟨s.toList ++ nonce.toList ++ ciphertext, ?_⟩
  simp only [sealRegion, hvec, henc]
  exact if_neg (by omega)

/-- A save that cannot be made changes nothing, and is under no condition. -/
theorem Disk.Sound.save_error {d : Disk} (h : d.Sound prims serde pass salt key) {i : Nat}
    {nonce : Nonce} {random : Nat → UInt8}
    (hfails : ∀ v, d.sessions[i]? = some v → ∃ e, v.save prims serde nonce random = .error e) :
    (VaultCall.save i nonce random).run prims serde pass d = d ∧
      SavesCurrent prims serde d (.save i nonce random) := by
  constructor
  · simp only [VaultCall.run]
    split
    · rfl
    · rename_i v hv
      obtain ⟨e, he⟩ := hfails v hv
      rw [he]
  · intro v entries k plaintext hv hentries hkey hvec hfits henc
    obtain ⟨e, he⟩ := hfails v hv
    have hattached := h.attached v (List.mem_of_getElem? hv)
    obtain ⟨inactive, hinactive, -⟩ := hattached.inactive
    obtain ⟨region, hregion⟩ := @sealRegion_isOk prims serde k (salt v.session) nonce random
      entries plaintext hvec hfits henc
    rw [hattached.save_eq hentries hkey hinactive, ← hattached.key k hkey, hregion] at he
    cases he

/-- A save that is made puts the sealed entries in the session's half, and its own copy of the
other region beside it. -/
theorem Disk.Sound.save_ok {d : Disk} (h : d.Sound prims serde pass salt key) {i : Nat}
    {nonce : Nonce} {random : Nat → UInt8} {v : Vault} {data : Bytes}
    (hv : d.sessions[i]? = some v) (hsave : v.save prims serde nonce random = .ok data) :
    ∃ entries k active inactive, v.entries = some entries ∧ v.encryptionKey = some k ∧
      v.inactiveRegionBytes = some inactive ∧ inactive.length = regionTotal ∧
      sealRegion prims serde (key v.session) (salt v.session) nonce random entries = .ok active ∧
      data = joined v.session active inactive := by
  have hattached := h.attached v (List.mem_of_getElem? hv)
  obtain ⟨inactive, hinactive, hlength⟩ := hattached.inactive
  cases hentries : v.entries with
  | none =>
    simp only [Vault.save, hentries] at hsave
    cases hsave
  | some entries =>
    cases hkey : v.encryptionKey with
    | none =>
      simp only [Vault.save, hentries, hkey] at hsave
      cases hsave
    | some k =>
      rw [hattached.save_eq hentries hkey hinactive] at hsave
      cases hseal : sealRegion prims serde (key v.session) (salt v.session) nonce random entries with
      | error e =>
        rw [hseal] at hsave
        cases hsave
      | ok active =>
        rw [hseal] at hsave
        exact ⟨entries, k, active, inactive, rfl, rfl, hinactive, hlength, hseal,
          (Except.ok.inj hsave).symm⟩

/-- With a current session and room for the trailer, a save keeps the disk sound. -/
theorem DualFile.save (hprims : prims.Lawful) (hserde : serde.Lawful)
    (hwrong : RejectsWrongKey prims pass salt key) {file : Bytes}
    {saved : VaultSession → EntryMap} (h : DualFile prims serde pass file salt key saved)
    {r : VaultSession} {nonce : Nonce} {random : Nat → UInt8} {entries : EntryMap}
    {active plaintext : Bytes}
    (hseal : sealRegion prims serde (key r) (salt r) nonce random entries = .ok active)
    (hvec : serde.toVec (VaultPlaintext.withDefaults entries) = .ok plaintext)
    (hroom : plaintext.length ≤ lenOffset) :
    DualFile prims serde pass (joined r active (half r.other file)) salt key
      (Function.update saved r entries) := by
  have hactive := length_sealRegion hprims hseal
  have hinactive := length_half h.length r.other
  obtain ⟨hself, hother⟩ := half_joined hactive hinactive r
  have hkey := deriveKey_of_decryptRegion (h.opens r)
  refine ⟨length_joined hactive hinactive r, fun r' => ?_, ?_⟩
  · by_cases hr : r' = r
    · subst hr
      rw [hself, decryptRegion_sealRegion hprims hserde hkey hvec hseal, if_pos hroom,
        Function.update_self]
    · have hr' : r' = r.other := by
        cases r <;> cases r' <;> simp_all [VaultSession.other]
      rw [Function.update_of_ne hr, hr', hother]
      exact h.opens r.other
  · cases r with
    | real =>
      rw [hself]
      exact decryptRegion_wrong_key hprims hseal fun key' hkey' plaintext ciphertext =>
        hwrong key' hkey' nonce plaintext ciphertext
    | duress =>
      rw [show VaultSession.real = VaultSession.duress.other from rfl, hother]
      exact h.rejects

/-- One call: a sound disk stays so if the saves are current, and only then is the file intact and
the other region kept. -/
theorem Disk.Sound.call (hprims : prims.Lawful) (hserde : serde.Lawful)
    (hwrong : RejectsWrongKey prims pass salt key) {d : Disk}
    (h : d.Sound prims serde pass salt key) (c : VaultCall) :
    (SavesCurrent prims serde d c → (c.run prims serde pass d).Sound prims serde pass salt key) ∧
      ((c.run prims serde pass d).Intact prims serde pass ∧
        OtherKept d c (c.run prims serde pass d) ↔ SavesCurrent prims serde d c) := by
  by_cases hsaves : ∃ i nonce random v data, c = .save i nonce random ∧ d.sessions[i]? = some v ∧
      v.save prims serde nonce random = .ok data
  · obtain ⟨i, nonce, random, v, data, rfl, hv, hsave⟩ := hsaves
    obtain ⟨entries, k, active, inactive, hentries, hkey, hinactive, hlength, hseal, rfl⟩ :=
      h.save_ok hv hsave
    obtain ⟨plaintext, ciphertext, hvec, hfits, henc, -⟩ := sealRegion_eq_ok hseal
    have hattached := h.attached v (List.mem_of_getElem? hv)
    have hrun : (VaultCall.save i nonce random).run prims serde pass d =
        { d with file := joined v.session active inactive
                 saved := Function.update d.saved v.session entries } := by
      simp only [VaultCall.run, hv, hsave, hentries, Option.getD_some]
    obtain ⟨hself, hother⟩ :=
      half_joined (length_sealRegion hprims hseal) hlength v.session
    have hcurrent : SavesCurrent prims serde d (.save i nonce random) ↔
        plaintext.length ≤ lenOffset ∧ inactive = half v.session.other d.file := by
      constructor
      · intro hsaves
        have := hsaves v entries k plaintext hv hentries hkey hvec hfits
          (by rw [hattached.key k hkey, henc]; rfl)
        rwa [hinactive, Option.some_inj] at this
      · rintro ⟨hroom, hinactive'⟩ v' entries' k' plaintext' hv' hentries' hkey' hvec' - -
        obtain rfl : v = v' := Option.some.inj (hv.symm.trans hv')
        obtain rfl : entries = entries' := Option.some.inj (hentries.symm.trans hentries')
        obtain rfl : plaintext = plaintext' := Except.ok.inj (hvec.symm.trans hvec')
        rw [hinactive, hinactive']
        exact ⟨hroom, rfl⟩
    have hsound : SavesCurrent prims serde d (.save i nonce random) →
        Disk.Sound prims serde pass salt key
          ((VaultCall.save i nonce random).run prims serde pass d) := by
      intro hsaves
      obtain ⟨hroom, rfl⟩ := hcurrent.mp hsaves
      rw [hrun]
      exact ⟨h.dual.save hprims hserde hwrong hseal hvec hroom, h.attached⟩
    refine ⟨hsound, ?_, fun hsaves => ⟨(hsound hsaves).intact, ?_⟩⟩
    · rintro ⟨hintact, hkept⟩
      rw [hrun] at hintact hkept
      refine hcurrent.mpr ⟨?_, ?_⟩
      · -- the session's half has to decrypt, which it does only when the trailer is free
        obtain ⟨w, hopen, -, hsession⟩ := hintact.reopens v.session
        obtain ⟨entries', salt', key', -, hdecrypt⟩ := open_dual_eq_ok hintact.length hopen
        rw [hsession] at hdecrypt
        dsimp only at hdecrypt
        rw [hself, decryptRegion_sealRegion hprims hserde
          (deriveKey_of_decryptRegion (h.dual.opens v.session)) hvec hseal] at hdecrypt
        by_contra hroom
        rw [if_neg hroom] at hdecrypt
        cases hdecrypt
      · rw [← hkept i nonce random v rfl hv]
        exact hother.symm
    · obtain ⟨-, hinactive'⟩ := hcurrent.mp hsaves
      rw [hrun]
      intro i' nonce' random' v' hc hv'
      cases hc
      obtain rfl : v = v' := Option.some.inj (hv.symm.trans hv')
      rw [← hinactive']
      exact hother
  · -- the call writes nothing, so the file is as it was
    have hunwritten : (c.run prims serde pass d).Sound prims serde pass salt key ∧
        (c.run prims serde pass d).file = d.file ∧ SavesCurrent prims serde d c := by
      by_cases hedit : ∀ i nonce random, c ≠ .save i nonce random
      · obtain ⟨hsound, hfile⟩ := h.edit hedit
        refine ⟨hsound, hfile, ?_⟩
        cases c with
        | save i nonce random => exact absurd rfl (hedit i nonce random)
        | _ => trivial
      · push Not at hedit
        obtain ⟨i, nonce, random, rfl⟩ := hedit
        have hfails : ∀ v, d.sessions[i]? = some v →
            ∃ e, v.save prims serde nonce random = .error e := by
          intro v hv
          cases hsave : v.save prims serde nonce random with
          | error e => exact ⟨e, rfl⟩
          | ok data => exact (hsaves ⟨i, nonce, random, v, data, rfl, hv, hsave⟩).elim
        obtain ⟨hrun, hcurrent⟩ := h.save_error hfails
        rw [hrun]
        exact ⟨h, rfl, hcurrent⟩
    obtain ⟨hsound, hfile, hcurrent⟩ := hunwritten
    refine ⟨fun _ => hsound, iff_of_true ⟨hsound.intact, ?_⟩ hcurrent⟩
    intro i nonce random v _ _
    rw [hfile]

section Single

/-- The vaults of a file with one region: created, or opened from a file that is not taken for a
dual one, and edited. -/
inductive SingleVault (prims : Primitives) (serde : Serde EntryMap) (passphrase : Bytes) :
    Vault → Prop
  | create {s : Salt} {v : Vault} :
    Vault.create prims passphrase s = .ok v → SingleVault prims serde passphrase v
  | «open» {file : Bytes} {v : Vault} : file.length ≠ dualVaultFileSize →
    Vault.open prims serde file passphrase = .ok v → SingleVault prims serde passphrase v
  | set {v v' : Vault} (name : String) (value : Bytes) : SingleVault prims serde passphrase v →
    v.set name value = .ok v' → SingleVault prims serde passphrase v'
  | remove {v v' : Vault} (name : String) : SingleVault prims serde passphrase v →
    v.remove name = .ok v' → SingleVault prims serde passphrase v'
  | lock {v : Vault} : SingleVault prims serde passphrase v →
    SingleVault prims serde passphrase v.lock

variable {passphrase : Bytes}

theorem openSingle_eq_ok {data : Bytes} {v : Vault}
    (h : Vault.openSingle prims serde data passphrase = .ok v) :
    v.inactiveRegionBytes = none ∧
      ∃ k, v.encryptionKey = some k ∧ prims.deriveKey passphrase v.salt = .ok k := by
  simp only [Vault.openSingle] at h
  split at h
  · cases h
  · split at h
    · cases h
    · rename_i k hkey
      split at h
      · cases h
      · split at h
        · cases h
        · obtain rfl := Except.ok.inj h
          exact ⟨rfl, k, rfl, hkey⟩

/-- A single vault knows no other region, and its key is the one of its passphrase and salt. -/
theorem SingleVault.derives {v : Vault} (h : SingleVault prims serde passphrase v) :
    v.inactiveRegionBytes = none ∧
      ∀ k, v.encryptionKey = some k → prims.deriveKey passphrase v.salt = .ok k := by
  induction h with
  | @create s v h =>
    rw [Vault.create] at h
    split at h
    · cases h
    · rename_i k hkey
      obtain rfl := Except.ok.inj h
      refine ⟨rfl, fun k' hk' => ?_⟩
      rw [hkey, Option.some.inj hk']
  | @«open» file v hlength h =>
    rw [Vault.open, if_neg (fun hdual => hlength (isDualVault_iff.mp hdual))] at h
    obtain ⟨hinactive, k, hk, hkey⟩ := openSingle_eq_ok h
    refine ⟨hinactive, fun k' hk' => ?_⟩
    rw [hkey, Option.some.inj (hk.symm.trans hk')]
  | @set v v' name value _ h ih =>
    rw [Vault.set] at h
    split at h
    · cases h
    · obtain rfl := Except.ok.inj h
      exact ih
  | @remove v v' name _ h ih =>
    rw [Vault.remove] at h
    split at h
    · cases h
    · obtain rfl := Except.ok.inj h
      exact ih
  | lock _ ih =>
    refine ⟨ih.1, fun k hk => ?_⟩
    cases hk

theorem openSingle_of_parts (hprims : prims.Lawful) {k : Key} {s : Salt} {nonce : Nonce}
    {plaintext ciphertext : Bytes} {entries : EntryMap}
    (hkey : prims.deriveKey passphrase s = .ok k)
    (henc : prims.encrypt k nonce plaintext = some ciphertext)
    (hdecode : decodeRegionEntries serde plaintext = .ok entries) :
    Vault.openSingle prims serde (s.toList ++ nonce.toList ++ ciphertext) passphrase =
      .ok ⟨some entries, some k, s, .real, none, 0⟩ := by
  have hlength := hprims.length_encrypt henc
  have hlong : ¬ (s.toList ++ nonce.toList ++ ciphertext).length < 16 + 24 + 16 := by
    simp only [List.length_append, Vector.length_toList]
    omega
  have hsalt : (s.toList ++ nonce.toList ++ ciphertext).take 16 = s.toList := by
    rw [List.append_assoc, List.take_left' (by simp)]
  have hnonce : ((s.toList ++ nonce.toList ++ ciphertext).drop 16).take 24 = nonce.toList := by
    rw [List.append_assoc, List.drop_left' (by simp), List.take_left' (by simp)]
  have hcipher : (s.toList ++ nonce.toList ++ ciphertext).drop 40 = ciphertext :=
    List.drop_left' (by simp)
  simp only [Vault.openSingle, dif_neg hlong, hsalt, hnonce, hcipher, Vector.toArray_toList,
    Vector.mk_toArray, hkey, hprims.decrypt_encrypt henc, hdecode]

/-- A save of a single vault opens again unless its file has the length of a dual one. -/
theorem SingleVault.open_save_iff (hprims : prims.Lawful) (hserde : serde.Lawful) {v : Vault}
    (h : SingleVault prims serde passphrase v) {entries : EntryMap} {nonce : Nonce}
    {random : Nat → UInt8} {plaintext data : Bytes} (hentries : v.entries = some entries)
    (hvec : serde.toVec (VaultPlaintext.withDefaults entries) = .ok plaintext)
    (hsave : v.save prims serde nonce random = .ok data)
    (hhalves : data.length = dualVaultFileSize →
      ∀ r, ∃ e, decryptRegion prims serde (half r data) passphrase = .error e) :
    (∃ v', Vault.open prims serde data passphrase = .ok v' ∧ v'.entries = some entries) ↔
      plaintext.length + 56 ≠ dualVaultFileSize := by
  obtain ⟨hinactive, hkeys⟩ := h.derives
  cases hk : v.encryptionKey with
  | none =>
    simp only [Vault.save, hentries, hk] at hsave
    cases hsave
  | some k =>
    simp only [Vault.save, hentries, hk, hinactive, Vault.sealSingle, hvec] at hsave
    cases henc : prims.encrypt k nonce plaintext with
    | none =>
      rw [henc] at hsave
      cases hsave
    | some ciphertext =>
      rw [henc] at hsave
      obtain rfl := Except.ok.inj hsave
      have hlength : (v.salt.toList ++ nonce.toList ++ ciphertext).length =
          plaintext.length + 56 := by
        have := hprims.length_encrypt henc
        simp only [List.length_append, Vector.length_toList]
        omega
      rw [hlength] at hhalves
      constructor
      · rintro ⟨v', hopen, -⟩ hdual
        rw [← hlength] at hdual
        obtain ⟨entries', salt', key', -, hdecrypt⟩ := open_dual_eq_ok hdual hopen
        obtain ⟨e, he⟩ := hhalves (hlength.symm.trans hdual) v'.session
        rw [he] at hdecrypt
        cases hdecrypt
      · intro hsingle
        refine ⟨⟨some entries, some k, v.salt, .real, none, 0⟩, ?_, rfl⟩
        rw [Vault.open, if_neg]
        · exact openSingle_of_parts hprims (hkeys k hk) henc (decodeRegionEntries_toVec hserde hvec)
        · rw [isDualVault_iff, hlength]
          exact hsingle

end Single

theorem after_snoc (start : Disk) (calls : List VaultCall) (c : VaultCall) :
    after prims serde pass start (calls ++ [c]) =
      c.run prims serde pass (after prims serde pass start calls) := by
  rw [after, List.foldl_append]
  rfl

theorem isolated_snoc (start : Disk) (calls : List VaultCall) (c : VaultCall) :
    Isolated prims serde pass start (calls ++ [c]) ↔
      (c.run prims serde pass (after prims serde pass start calls)).Intact prims serde pass ∧
        OtherKept (after prims serde pass start calls) c
          (c.run prims serde pass (after prims serde pass start calls)) := by
  rw [Isolated, after_snoc]
  refine and_congr_right fun _ => ?_
  constructor
  · intro hkept
    exact hkept calls c rfl
  · intro hkept pre c' heq
    obtain ⟨rfl, rfl⟩ := List.append_singleton_inj.mp heq
    exact hkept

/-- The sessions of a dual vault are isolated along a history exactly if each save that is made
leaves the trailer free and is by a session that has seen the other region's last save; and a vault
with one region opens after a save exactly if the file has not the length of a dual vault. -/
theorem vaultSessions_isolated_iff (hprims : prims.Lawful) (hserde : serde.Lawful)
    {file : Bytes} {entries : VaultSession → EntryMap}
    (hfile : DualFile prims serde pass file salt key entries)
    (hwrong : RejectsWrongKey prims pass salt key) :
    (∀ calls, Throughout (Isolated prims serde pass ⟨file, [], entries⟩) calls ↔
      EachCall (fun pre c =>
        SavesCurrent prims serde (after prims serde pass ⟨file, [], entries⟩ pre) c) calls) ∧
    (∀ passphrase v saved nonce random plaintext data, SingleVault prims serde passphrase v →
      v.entries = some saved →
      serde.toVec (VaultPlaintext.withDefaults saved) = .ok plaintext →
      v.save prims serde nonce random = .ok data →
      (data.length = dualVaultFileSize →
        ∀ r, ∃ e, decryptRegion prims serde (half r data) passphrase = .error e) →
      ((∃ v', Vault.open prims serde data passphrase = .ok v' ∧ v'.entries = some saved) ↔
        plaintext.length + 56 ≠ dualVaultFileSize)) := by
  constructor
  · intro calls
    have hstart : Disk.Sound prims serde pass salt key ⟨file, [], entries⟩ := ⟨hfile, nofun⟩
    apply throughout_iff_eachCall_of_invariant
      (J := fun calls =>
        (after prims serde pass ⟨file, [], entries⟩ calls).Sound prims serde pass salt key)
    · exact ⟨hstart.intact, fun pre c h => absurd h (by simp)⟩
    · exact hstart
    · intro calls c hsound hcurrent
      rw [after_snoc]
      exact (hsound.call hprims hserde hwrong c).1 hcurrent
    · intro calls c hsound
      rw [isolated_snoc]
      exact (hsound.call hprims hserde hwrong c).2
  · intro passphrase v saved nonce random plaintext data hv hentries hvec hsave hhalves
    exact hv.open_save_iff hprims hserde hentries hvec hsave hhalves

section Samples

def samplePass : VaultSession → Bytes
  | .real => [1]
  | .duress => [2]

def sampleKey (r : VaultSession) : Key :=
  Vector.ofFn fun i => (samplePass r ++ zeroSalt.toList).getD i 0

def sampleText (n : Nat) : Bytes :=
  utf8 (envelopeCodec.write ((65536, 3, 4), (zeroEntry n).entries))

/-- The first byte of the key. -/
def sampleByte (r : VaultSession) : UInt8 := (samplePass r ++ zeroSalt.toList).getD 0 0

def sampleRegion (r : VaultSession) (n : Nat) : Bytes :=
  zeroSalt.toList ++ zeroNonce.toList ++
    ((frame 8 maxPlaintextSize (fun _ => 0) (sampleText n)).map (· ^^^ sampleByte r) ++
      List.replicate 16 (sampleByte r))

/-- Two zero bytes in either region. -/
def sampleFile : Bytes := sampleRegion .real 2 ++ sampleRegion .duress 2

theorem sampleKey_head (r : VaultSession) : (sampleKey r).get 0 = sampleByte r := by
  cases r <;> rfl

theorem seal_sampleRegion (r : VaultSession) {n : Nat} (h : 2 * n + 133 ≤ maxPlaintextSize) :
    sealRegion maskPrimitives vaultSerde (sampleKey r) zeroSalt zeroNonce (fun _ => 0)
      (zeroEntry (n + 1)) = .ok (sampleRegion r (n + 1)) := by
  have hfits : ¬ (utf8 (envelopeCodec.write
      ((65536, 3, 4), (zeroEntry (n + 1)).entries))).length > maxPlaintextSize := by
    rw [length_zeroEntry]
    omega
  simp only [sealRegion, toVec_zeroEntry, if_neg hfits]
  rw [sampleRegion, ← sampleKey_head]
  rfl

theorem sample_rejectsWrongKey :
    RejectsWrongKey maskPrimitives samplePass (fun _ => zeroSalt) sampleKey := by
  intro key' hkey nonce plaintext ciphertext henc
  obtain rfl : sampleKey .duress = key' := Except.ok.inj hkey
  obtain rfl := Option.some.inj henc
  have hkeys : (sampleKey .real)[0] ≠ (sampleKey .duress)[0] := by decide
  simp [maskPrimitives, hkeys]

theorem sample_dualFile : DualFile maskPrimitives vaultSerde samplePass sampleFile
    (fun _ => zeroSalt) sampleKey (fun _ => zeroEntry 2) := by
  have hseal : ∀ r, sealRegion maskPrimitives vaultSerde (sampleKey r) zeroSalt zeroNonce
      (fun _ => 0) (zeroEntry 2) = .ok (sampleRegion r 2) :=
    fun r => @seal_sampleRegion r 1 (by decide)
  have hlength : ∀ r, (sampleRegion r 2).length = regionTotal :=
    fun r => length_sealRegion maskPrimitives_lawful (hseal r)
  have hopens : ∀ r, decryptRegion maskPrimitives vaultSerde (sampleRegion r 2) (samplePass r) =
      .ok (zeroEntry 2, zeroSalt, sampleKey r) := by
    intro r
    rw [decryptRegion_sealRegion maskPrimitives_lawful vaultSerde_lawful rfl (toVec_zeroEntry 2)
      (hseal r), if_pos]
    · rfl
    · rw [length_zeroEntry 1]
      decide
  obtain ⟨hreal, hduress⟩ := half_joined (hlength .real) (hlength .duress) .real
  refine ⟨length_joined (hlength .real) (hlength .duress) .real, fun r => ?_, ?_⟩
  · cases r with
    | real =>
      change decryptRegion _ _ (half .real (joined .real _ _)) _ = _
      rw [hreal]
      exact hopens .real
    | duress =>
      change decryptRegion _ _ (half VaultSession.real.other (joined .real _ _)) _ = _
      rw [hduress]
      exact hopens .duress
  · change ∃ e, decryptRegion _ _ (half .real (joined .real _ _)) _ = _
    rw [hreal]
    exact decryptRegion_wrong_key maskPrimitives_lawful (hseal .real)
      fun key' hkey' plaintext ciphertext =>
        sample_rejectsWrongKey key' hkey' zeroNonce plaintext ciphertext

theorem insert_zeroEntry (n m : Nat) :
    (zeroEntry n).insert "k" (List.replicate m 0) = zeroEntry m := by
  simp [EntryMap.insert, zeroEntry, HashMap.insertEntry, HashMap.replace]

/-- The first session after it was opened and edited. -/
theorem sessions_open_set {file : Bytes} {saved : VaultSession → EntryMap} {r : VaultSession}
    {v v' : Vault} {name : String} {value : Bytes}
    (hopen : Vault.open prims serde file (pass r) = .ok v) (hset : v.set name value = .ok v') :
    (after prims serde pass ⟨file, [], saved⟩ [.open r, .set 0 name value]).sessions[0]? =
      some v' := by
  simp only [after, List.foldl_cons, List.foldl_nil, VaultCall.run, hopen, List.nil_append,
    List.getElem?_cons_zero, hset, List.set_cons_zero]

theorem file_open_set {file : Bytes} {saved : VaultSession → EntryMap} {r : VaultSession}
    {v v' : Vault} {name : String} {value : Bytes}
    (hopen : Vault.open prims serde file (pass r) = .ok v) (hset : v.set name value = .ok v') :
    (after prims serde pass ⟨file, [], saved⟩ [.open r, .set 0 name value]).file = file := by
  simp only [after, List.foldl_cons, List.foldl_nil, VaultCall.run, hopen, List.nil_append,
    List.getElem?_cons_zero, hset]

theorem sound_open_set {file : Bytes} {saved : VaultSession → EntryMap} {r : VaultSession}
    {name : String} {value : Bytes} (h : DualFile prims serde pass file salt key saved) :
    (after prims serde pass ⟨file, [], saved⟩ [.open r, .set 0 name value]).Sound
      prims serde pass salt key := by
  have hstart : Disk.Sound prims serde pass salt key ⟨file, [], saved⟩ := ⟨h, nofun⟩
  exact ((hstart.edit (c := .open r) nofun).1.edit (c := .set 0 name value) nofun).1

theorem set_sample (r : VaultSession) (n : Nat) :
    Vault.set "k" (List.replicate (n + 1) 0)
      ⟨some (zeroEntry 2), some (sampleKey r), zeroSalt, r, some (half r.other sampleFile),
        r.regionIndex⟩ =
      .ok ⟨some (zeroEntry (n + 1)), some (sampleKey r), zeroSalt, r,
        some (half r.other sampleFile), r.regionIndex⟩ := by
  simp only [Vault.set, insert_zeroEntry]

/-- The real session saves what it has set, and then the duress session opens. -/
theorem opening_isolated :
    Throughout (Isolated maskPrimitives vaultSerde samplePass
      ⟨sampleFile, [], fun _ => zeroEntry 2⟩)
      [.open .real, .set 0 "k" (List.replicate 4 0), .save 0 zeroNonce fun _ => 0,
        .open .duress] := by
  refine ((vaultSessions_isolated_iff maskPrimitives_lawful vaultSerde_lawful sample_dualFile
    sample_rejectsWrongKey).1 _).mpr ?_
  have hcalls : [VaultCall.open .real, .set 0 "k" (List.replicate 4 0),
      .save 0 zeroNonce fun _ => 0, .open .duress] =
      ([.open .real, .set 0 "k" (List.replicate 4 0)] ++ [.save 0 zeroNonce fun _ => 0]) ++
        [.open .duress] := rfl
  rw [hcalls, eachCall_snoc, eachCall_snoc]
  refine ⟨⟨?_, ?_⟩, trivial⟩
  · rw [eachCall_iff_getElem]
    intro i
    match i with
    | ⟨0, _⟩ | ⟨1, _⟩ => exact trivial
  · intro v entries key plaintext hv hentries _ hvec _ _
    have hopen := sample_dualFile.open_eq .real
    rw [sessions_open_set hopen (set_sample .real 3)] at hv
    obtain rfl := Option.some.inj hv
    obtain rfl := Option.some.inj hentries
    obtain rfl := Except.ok.inj ((toVec_zeroEntry 4).symm.trans hvec)
    refine ⟨?_, ?_⟩
    · rw [length_zeroEntry 3]
      decide
    · rw [file_open_set hopen (set_sample .real 3)]

theorem save_over_trailer {n : Nat} (hover : lenOffset < 2 * n + 133)
    (hfits : 2 * n + 133 ≤ maxPlaintextSize) :
    ¬ Throughout (Isolated maskPrimitives vaultSerde samplePass
      ⟨sampleFile, [], fun _ => zeroEntry 2⟩)
      [.open .real, .set 0 "k" (List.replicate (n + 1) 0), .save 0 zeroNonce fun _ => 0] := by
  intro hthroughout
  have hlast := (isolated_snoc _ [.open .real, .set 0 "k" (List.replicate (n + 1) 0)]
    (.save 0 zeroNonce fun _ => 0)).mp hthroughout.self
  have hcurrent := ((sound_open_set sample_dualFile).call maskPrimitives_lawful vaultSerde_lawful
    sample_rejectsWrongKey (.save 0 zeroNonce fun _ => 0)).2.mp hlast
  have hlength := length_zeroEntry n
  have hroom := hcurrent _ (zeroEntry (n + 1)) (sampleKey .real) (sampleText (n + 1))
    (sessions_open_set (sample_dualFile.open_eq .real) (set_sample .real n)) rfl rfl (toVec_zeroEntry (n + 1))
    (by
      rw [sampleText]
      omega)
    rfl
  rw [sampleText] at hroom
  omega

/-- A value of 32691 zero bytes is saved in the real session, which then does not open. -/
theorem large_save_not_isolated :
    DualFile maskPrimitives vaultSerde samplePass sampleFile (fun _ => zeroSalt) sampleKey
      (fun _ => zeroEntry 2) ∧
    RejectsWrongKey maskPrimitives samplePass (fun _ => zeroSalt) sampleKey ∧
    ¬ Throughout (Isolated maskPrimitives vaultSerde samplePass
      ⟨sampleFile, [], fun _ => zeroEntry 2⟩)
      [.open .real, .set 0 "k" (List.replicate 32691 0), .save 0 zeroNonce fun _ => 0] :=
  ⟨sample_dualFile, sample_rejectsWrongKey, @save_over_trailer 32690 (by decide) (by decide)⟩

end Samples

end Springtale.Crypto
