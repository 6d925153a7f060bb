import Springtale.Connector.InstallWasm
import Springtale.Core.JsonText
import Springtale.Sentinel.TamperEvidence

/-! Signed manifests: an author signs the canonical JSON of all fields but the signature, and the
verifier reads the signature back and checks it against the same text. -/
namespace Springtale.Connector.Signing

open Springtale.Core Springtale.Crypto Springtale.Lib Springtale.Sentinel

structure TriggerDecl where
  name : String
  description : String
  schema : Option Value

structure ActionDecl extends Connector.ActionDecl where
  description : String
  inputSchema : Option Value
  outputSchema : Option Value
  pollIntervalSecs : Option UInt64

structure DataDisclosure where
  dataType : String
  purpose : String
  destination : String

structure RoleDecl where
  name : String
  description : String
  capabilities : List String
  allowedActions : List String

inductive SignatureAlgorithm where
  | ed25519

structure ConnectorManifest where
  name : String
  version : String
  author : String
  description : String
  capabilities : List Capability
  triggers : List TriggerDecl
  actions : List ActionDecl
  dataDisclosure : List DataDisclosure
  roles : List RoleDecl
  wasmHash : Option String
  signatureAlg : SignatureAlgorithm
  signature : Option String

/-- An absent value is written as null. -/
def optionValue {α : Type} (toValue : α → Value) : Option α → Value
  | none => .null
  | some a => toValue a

def capabilityFields : Capability → List (String × Value)
  | .networkOutbound host => [("type", .string "NetworkOutbound"), ("host", .string host)]
  | .filesystemRead path => [("type", .string "FilesystemRead"), ("path", .string path)]
  | .filesystemWrite path => [("type", .string "FilesystemWrite"), ("path", .string path)]
  | .keychainRead key => [("type", .string "KeychainRead"), ("key", .string key)]
  | .shellExec => [("type", .string "ShellExec")]

def capabilityValue (cap : Capability) : Value := .object (capabilityFields cap)

def TriggerDecl.toValue (t : TriggerDecl) : Value :=
  .object [("name", .string t.name), ("description", .string t.description),
    ("schema", optionValue id t.schema)]

def ActionDecl.toValue (a : ActionDecl) : Value :=
  .object [("name", .string a.name), ("description", .string a.description),
    ("input_schema", optionValue id a.inputSchema),
    ("output_schema", optionValue id a.outputSchema), ("read_only", .bool a.readOnly),
    ("destructive", optionValue .bool a.destructive),
    ("poll_interval_secs", optionValue (fun n => .int n.toNat) a.pollIntervalSecs)]

def DataDisclosure.toValue (d : DataDisclosure) : Value :=
  .object [("data_type", .string d.dataType), ("purpose", .string d.purpose),
    ("destination", .string d.destination)]

def RoleDecl.toValue (r : RoleDecl) : Value :=
  .object [("name", .string r.name), ("description", .string r.description),
    ("capabilities", .array (r.capabilities.map .string)),
    ("allowed_actions", .array (r.allowedActions.map .string))]

def SignatureAlgorithm.toValue : SignatureAlgorithm → Value
  | .ed25519 => .string "ed25519"

def ConnectorManifest.toValue (m : ConnectorManifest) : Value :=
  .object [("name", .string m.name), ("version", .string m.version), ("author", .string m.author),
    ("description", .string m.description),
    ("capabilities", .array (m.capabilities.map capabilityValue)),
    ("triggers", .array (m.triggers.map TriggerDecl.toValue)),
    ("actions", .array (m.actions.map ActionDecl.toValue)),
    ("data_disclosure", .array (m.dataDisclosure.map DataDisclosure.toValue)),
    ("roles", .array (m.roles.map RoleDecl.toValue)),
    ("wasm_hash", optionValue .string m.wasmHash), ("signature_alg", m.signatureAlg.toValue),
    ("signature", optionValue .string m.signature)]

/-- All fields of the manifest except `signature`. -/
def signableManifestJson (m : ConnectorManifest) : Value :=
  match m.toValue with
  | .object map => .object (map.filter fun field => field.1 ≠ "signature")
  | json => json

/-- Ed25519, as its crate has it: key pairs with their public keys, signatures of 64 bytes, and the
check of a signature. -/
structure SignatureScheme (Keypair VerifyingKey : Type) where
  verifyingKey : Keypair → VerifyingKey
  sign : Keypair → List UInt8 → List UInt8
  verify : VerifyingKey → List UInt8 → List UInt8 → Bool
  sign_length : ∀ keypair message, (sign keypair message).length = 64

inductive VerifyError where
  | manifestInvalid (message : String)
  | signatureInvalid
deriving DecidableEq

section Scheme

variable {Keypair VerifyingKey : Type} (scheme : SignatureScheme Keypair VerifyingKey)
  (floats : FloatText) (hexError : List Char → String)

def signableBytes (m : ConnectorManifest) : List UInt8 :=
  asBytes (canonicalJson floats (signableManifestJson m))

def signManifest (m : ConnectorManifest) (keypair : Keypair) : ConnectorManifest × String :=
  match m.signatureAlg with
  | .ed25519 =>
    let hex := String.ofList (hexEncode (scheme.sign keypair (signableBytes floats m)))
    ({ m with signature := some hex }, hex)

/-- `hexError` is the text that the `hex` crate has for a text it cannot decode. -/
def verifyEd25519 (m : ConnectorManifest) (authorPublicKey : VerifyingKey) :
    Except VerifyError Unit :=
  match m.signature with
  | none => .error (.manifestInvalid "missing signature")
  | some sigHex =>
    match hexDecode sigHex.toList with
    | none => .error (.manifestInvalid ("invalid signature hex: " ++ hexError sigHex.toList))
    | some sigBytes =>
      if sigBytes.length = 64 then
        if scheme.verify authorPublicKey (signableBytes floats m) sigBytes then .ok ()
        else .error .signatureInvalid
      else .error (.manifestInvalid "signature must be 64 bytes")

def verifyManifestSignature (m : ConnectorManifest) (authorPublicKey : VerifyingKey) :
    Except VerifyError Unit :=
  match m.signatureAlg with
  | .ed25519 => verifyEd25519 scheme floats hexError m authorPublicKey

/-- What a public key accepts of its own key pair. -/
def SignatureScheme.Correct : Prop :=
  ∀ keypair message,
    scheme.verify (scheme.verifyingKey keypair) message (scheme.sign keypair message) = true

/-- A signature stands for one message under the key. -/
def SignatureScheme.Binds (key : VerifyingKey) (sigBytes : List UInt8) : Prop :=
  ∀ message message', scheme.verify key message sigBytes = true →
    scheme.verify key message' sigBytes = true → message = message'

end Scheme

/-- The part of the manifest that its structure check reads. -/
def ConnectorManifest.structural (m : ConnectorManifest) : WasmManifest where
  name := m.name
  capabilities := m.capabilities
  actions := m.actions.map (·.toActionDecl)
  version := m.version
  author := m.author
  wasmHash := m.wasmHash

/-- A schema as it is signed: in canonical form, and null when absent. -/
def coveredSchema (schema : Option Value) : Option Value :=
  some (sortJsonKeys (optionValue id schema))

def TriggerDecl.covered (t : TriggerDecl) : TriggerDecl :=
  { t with schema := coveredSchema t.schema }

def ActionDecl.covered (a : ActionDecl) : ActionDecl :=
  { a with inputSchema := coveredSchema a.inputSchema, outputSchema := coveredSchema a.outputSchema }

/-- What a signature covers of a manifest. -/
def ConnectorManifest.covered (m : ConnectorManifest) : ConnectorManifest :=
  { m with
    triggers := m.triggers.map TriggerDecl.covered
    actions := m.actions.map ActionDecl.covered
    signature := none }

/-- The bytes that the signature field spells. -/
def ConnectorManifest.signatureBytes (m : ConnectorManifest) : Option (List UInt8) :=
  m.signature.bind fun sigHex => hexDecode sigHex.toList

theorem signable_eq (m : ConnectorManifest) : signableManifestJson m =
    .object [("name", .string m.name), ("version", .string m.version), ("author", .string m.author),
      ("description", .string m.description),
      ("capabilities", .array (m.capabilities.map capabilityValue)),
      ("triggers", .array (m.triggers.map TriggerDecl.toValue)),
      ("actions", .array (m.actions.map ActionDecl.toValue)),
      ("data_disclosure", .array (m.dataDisclosure.map DataDisclosure.toValue)),
      ("roles", .array (m.roles.map RoleDecl.toValue)),
      ("wasm_hash", optionValue .string m.wasmHash),
      ("signature_alg", m.signatureAlg.toValue)] := by
  simp [signableManifestJson, ConnectorManifest.toValue]

/-- The signature is no part of what is signed. -/
theorem signable_signature (m : ConnectorManifest) (signature : Option String) :
    signableManifestJson { m with signature } = signableManifestJson m := by
  rw [signable_eq, signable_eq]

theorem optionString_of_sorted {a b : Option String}
    (h : sortJsonKeys (optionValue .string a) = sortJsonKeys (optionValue .string b)) : a = b := by
  cases a <;> cases b <;> simp_all [optionValue, sortJsonKeys]

theorem optionBool_of_sorted {a b : Option Bool}
    (h : sortJsonKeys (optionValue .bool a) = sortJsonKeys (optionValue .bool b)) : a = b := by
  cases a <;> cases b <;> simp_all [optionValue, sortJsonKeys]

theorem optionSecs_of_sorted {a b : Option UInt64}
    (h : sortJsonKeys (optionValue (fun n => .int n.toNat) a) =
      sortJsonKeys (optionValue (fun n => .int n.toNat) b)) : a = b := by
  cases a with
  | none =>
    cases b with
    | none => rfl
    | some n => cases h
  | some m =>
    cases b with
    | none => cases h
    | some n =>
      have hnat : (m.toNat : Int) = n.toNat := Value.int.inj h
      rw [UInt64.toNat_inj.mp (Int.ofNat.inj hnat)]

theorem strings_of_sorted {a b : List String}
    (h : sortJsonKeys (.array (a.map .string)) = sortJsonKeys (.array (b.map .string))) :
    a = b := by
  have hmap := map_eq_of_sorted (g := id)
    (fun s t hst => by simpa [sortJsonKeys] using hst) h
  simpa using hmap

theorem capabilityFields_nodup (cap : Capability) :
    ((capabilityFields cap).map (·.1)).Nodup := by
  cases cap <;> simp [capabilityFields]

theorem capability_of_sorted (a b : Capability)
    (h : sortJsonKeys (capabilityValue a) = sortJsonKeys (capabilityValue b)) : a = b := by
  have hkey := lookupKey_of_sorted (capabilityFields_nodup a) (capabilityFields_nodup b) h
  have htype := hkey "type"
  have hhost := hkey "host"
  have hpath := hkey "path"
  have hname := hkey "key"
  cases a <;> cases b <;> simp_all [capabilityFields, lookupKey, sortJsonKeys]

theorem trigger_of_sorted (a b : TriggerDecl)
    (h : sortJsonKeys a.toValue = sortJsonKeys b.toValue) : a.covered = b.covered := by
  have hkey := lookupKey_of_sorted (by simp) (by simp) h
  have hname := hkey "name"
  have hdescription := hkey "description"
  have hschema := hkey "schema"
  simp [lookupKey, sortJsonKeys] at hname hdescription hschema
  simp [TriggerDecl.covered, coveredSchema, hname, hdescription, hschema]

theorem action_of_sorted (a b : ActionDecl)
    (h : sortJsonKeys a.toValue = sortJsonKeys b.toValue) : a.covered = b.covered := by
  have hkey := lookupKey_of_sorted (by simp) (by simp) h
  have hname := hkey "name"
  have hdescription := hkey "description"
  have hinput := hkey "input_schema"
  have houtput := hkey "output_schema"
  have hreadOnly := hkey "read_only"
  have hdestructive := hkey "destructive"
  have hsecs := hkey "poll_interval_secs"
  simp [lookupKey, sortJsonKeys] at hname hdescription hinput houtput hreadOnly hdestructive hsecs
  have hdecl : a.toActionDecl = b.toActionDecl := by
    rcases a with ⟨⟨aName, aReadOnly, aDestructive⟩, aDescription, aInput, aOutput, aSecs⟩
    rcases b with ⟨⟨bName, bReadOnly, bDestructive⟩, bDescription, bInput, bOutput, bSecs⟩
    rw [Connector.ActionDecl.mk.injEq]
    exact ⟨hname, hreadOnly, optionBool_of_sorted hdestructive⟩
  simp [ActionDecl.covered, coveredSchema, hdecl, hdescription, hinput, houtput,
    optionSecs_of_sorted hsecs]

theorem disclosure_of_sorted (a b : DataDisclosure)
    (h : sortJsonKeys a.toValue = sortJsonKeys b.toValue) : a = b := by
  have hkey := lookupKey_of_sorted (by simp) (by simp) h
  have htype := hkey "data_type"
  have hpurpose := hkey "purpose"
  have hdestination := hkey "destination"
  simp [lookupKey, sortJsonKeys] at htype hpurpose hdestination
  cases a
  cases b
  simp_all

theorem role_of_sorted (a b : RoleDecl)
    (h : sortJsonKeys a.toValue = sortJsonKeys b.toValue) : a = b := by
  have hkey := lookupKey_of_sorted (by simp) (by simp) h
  have hname := hkey "name"
  have hdescription := hkey "description"
  have hcapabilities := strings_of_sorted (Option.some.inj (hkey "capabilities"))
  have hactions := strings_of_sorted (Option.some.inj (hkey "allowed_actions"))
  simp [lookupKey, sortJsonKeys] at hname hdescription
  cases a
  cases b
  simp_all

/-- Manifests with one signed text agree in all that a signature covers. -/
theorem covered_of_sorted {m m' : ConnectorManifest}
    (h : sortJsonKeys (signableManifestJson m) = sortJsonKeys (signableManifestJson m')) :
    m.covered = m'.covered := by
  rw [signable_eq, signable_eq] at h
  have hkey := lookupKey_of_sorted (by simp) (by simp) h
  have hcapabilities := map_eq_of_sorted (g := id) capability_of_sorted
    (Option.some.inj (hkey "capabilities"))
  have htriggers := map_eq_of_sorted trigger_of_sorted (Option.some.inj (hkey "triggers"))
  have hactions := map_eq_of_sorted action_of_sorted (Option.some.inj (hkey "actions"))
  have hdisclosure := map_eq_of_sorted (g := id) disclosure_of_sorted
    (Option.some.inj (hkey "data_disclosure"))
  have hroles := map_eq_of_sorted (g := id) role_of_sorted (Option.some.inj (hkey "roles"))
  have hwasm := optionString_of_sorted (Option.some.inj (hkey "wasm_hash"))
  have hname := hkey "name"
  have hversion := hkey "version"
  have hauthor := hkey "author"
  have hdescription := hkey "description"
  simp [lookupKey, sortJsonKeys] at hname hversion hauthor hdescription
  rw [List.map_id, List.map_id] at hcapabilities hdisclosure hroles
  -- one algorithm exists
  have halg : m.signatureAlg = m'.signatureAlg := rfl
  rw [ConnectorManifest.covered, ConnectorManifest.covered, hname, hversion, hauthor, hdescription,
    hcapabilities, htriggers, hactions, hdisclosure, hroles, hwasm, halg]

section Scheme

variable {Keypair VerifyingKey : Type} {scheme : SignatureScheme Keypair VerifyingKey}
  {floats : FloatText} {hexError : List Char → String}

/-- What an accepted manifest has shown. -/
theorem verified_iff {m : ConnectorManifest} {key : VerifyingKey} :
    verifyManifestSignature scheme floats hexError m key = .ok () ↔
      ∃ sigBytes, m.signatureBytes = some sigBytes ∧ sigBytes.length = 64 ∧
        scheme.verify key (signableBytes floats m) sigBytes = true := by
  rw [verifyManifestSignature, verifyEd25519, ConnectorManifest.signatureBytes]
  cases m.signature with
  | none => simp
  | some sigHex =>
    rw [Option.bind_some]
    cases hhex : hexDecode sigHex.toList with
    | none => simp [hhex]
    | some sigBytes =>
      by_cases hlength : sigBytes.length = 64
      · by_cases hverify : scheme.verify key (signableBytes floats m) sigBytes <;>
          simp [hhex, hlength, hverify]
      · simp [hhex, hlength]

theorem signatureBytes_signed (m : ConnectorManifest) (keypair : Keypair) :
    (signManifest scheme floats m keypair).1.signatureBytes =
      some (scheme.sign keypair (signableBytes floats m)) := by
  rw [signManifest, ConnectorManifest.signatureBytes, Option.bind_some, String.toList_ofList,
    hexDecode_hexEncode]

theorem signableBytes_signed (m : ConnectorManifest) (keypair : Keypair) :
    signableBytes floats (signManifest scheme floats m keypair).1 = signableBytes floats m := by
  rw [signableBytes, signManifest, signable_signature, signableBytes]

theorem verified_signed (hcorrect : scheme.Correct) (m : ConnectorManifest) (keypair : Keypair) :
    verifyManifestSignature scheme floats hexError (signManifest scheme floats m keypair).1
      (scheme.verifyingKey keypair) = .ok () := by
  rw [verified_iff, signableBytes_signed]
  exact ⟨_, signatureBytes_signed m keypair, scheme.sign_length _ _, hcorrect _ _⟩

/-- Under a signature that stands for one message, verified manifests agree in what is covered. -/
theorem covered_eq_of_verified {m m' : ConnectorManifest} {key : VerifyingKey}
    {sigBytes : List UInt8} (hbinds : scheme.Binds key sigBytes)
    (hm : m.signatureBytes = some sigBytes) (hm' : m'.signatureBytes = some sigBytes)
    (hverified : verifyManifestSignature scheme floats hexError m key = .ok ())
    (hverified' : verifyManifestSignature scheme floats hexError m' key = .ok ()) :
    m.covered = m'.covered := by
  obtain ⟨bytes, hbytes, -, hverify⟩ := verified_iff.mp hverified
  obtain ⟨bytes', hbytes', -, hverify'⟩ := verified_iff.mp hverified'
  obtain rfl : sigBytes = bytes := Option.some.inj (hm.symm.trans hbytes)
  obtain rfl : sigBytes = bytes' := Option.some.inj (hm'.symm.trans hbytes')
  have hmessage := hbinds _ _ hverify hverify'
  exact covered_of_sorted (canonicalJson_injective floats (asBytes_injective hmessage))

/-- A manifest signed with a key pair verifies with its public key, its structure check answering as
before; and manifests that verify under one signature and key agree in all that is covered. -/
theorem signature_covers (hcorrect : scheme.Correct) :
    (∀ (m : ConnectorManifest) (keypair : Keypair),
      verifyManifestSignature scheme floats hexError (signManifest scheme floats m keypair).1
        (scheme.verifyingKey keypair) = .ok () ∧
      (signManifest scheme floats m keypair).1.covered = m.covered ∧
      verifyManifest (signManifest scheme floats m keypair).1.structural =
        verifyManifest m.structural) ∧
    ∀ (m m' : ConnectorManifest) (key : VerifyingKey) (sigBytes : List UInt8),
      scheme.Binds key sigBytes → m.signatureBytes = some sigBytes →
      m'.signatureBytes = some sigBytes →
      verifyManifestSignature scheme floats hexError m key = .ok () →
      verifyManifestSignature scheme floats hexError m' key = .ok () → m.covered = m'.covered :=
  ⟨fun m keypair => ⟨verified_signed hcorrect m keypair, rfl, rfl⟩,
    fun _ _ _ _ => covered_eq_of_verified⟩

end Scheme

def firstOrSecond (message m : List UInt8) : List UInt8 :=
  if m = message then List.replicate 64 0 else List.replicate 64 1

theorem firstOrSecond_length (message m : List UInt8) : (firstOrSecond message m).length = 64 := by
  rw [firstOrSecond]
  split <;> rfl

/-- A scheme with two signatures, the first of which stands for `message` alone. -/
def twoSignatures (message : List UInt8) : SignatureScheme Unit Unit where
  verifyingKey := id
  sign _ m := firstOrSecond message m
  verify _ m sigBytes := sigBytes = firstOrSecond message m
  sign_length _ m := firstOrSecond_length message m

theorem twoSignatures_correct (message : List UInt8) : (twoSignatures message).Correct :=
  fun _ _ => decide_eq_true rfl

theorem twoSignatures_binds (message : List UInt8) :
    (twoSignatures message).Binds () (List.replicate 64 0) := by
  have honly : ∀ m, (twoSignatures message).verify () m (List.replicate 64 0) = true →
      m = message := by
    intro m h
    by_contra hne
    have heq := of_decide_eq_true h
    rw [firstOrSecond, if_neg hne] at heq
    exact absurd heq (by decide)
  intro m m' h h'
  rw [honly m h, honly m' h']

/-- A connector with one event, whose schema is absent or null. -/
def oneEvent (schema : Option Value) : ConnectorManifest where
  name := "connector-example"
  version := "1.0.0"
  author := "author"
  description := ""
  capabilities := [.shellExec]
  triggers := [⟨"changed", "", schema⟩]
  actions := []
  dataDisclosure := []
  roles := []
  wasmHash := none
  signatureAlg := .ed25519
  signature := none

def eventScheme : SignatureScheme Unit Unit :=
  twoSignatures (signableBytes ratioText (oneEvent none))

def signedEvent (schema : Option Value) : ConnectorManifest :=
  (signManifest eventScheme ratioText (oneEvent schema) ()).1

theorem signableBytes_null (floats : FloatText) :
    signableBytes floats (oneEvent (some .null)) = signableBytes floats (oneEvent none) := by
  rw [signableBytes, signableBytes, signable_eq, signable_eq]
  rfl

theorem eventScheme_binds : eventScheme.Binds () (List.replicate 64 0) := twoSignatures_binds _

theorem signedEvent_bytes (schema : Option Value)
    (h : signableBytes ratioText (oneEvent schema) = signableBytes ratioText (oneEvent none)) :
    (signedEvent schema).signatureBytes = some (List.replicate 64 0) := by
  have hsign : ∀ message, eventScheme.sign () message =
      firstOrSecond (signableBytes ratioText (oneEvent none)) message := fun _ => rfl
  rw [signedEvent, signatureBytes_signed, hsign, firstOrSecond, if_pos h]

/-- The two events are covered alike. -/
theorem signature_covers_events :
    verifyManifestSignature eventScheme ratioText (fun _ => "") (signedEvent none) () = .ok () ∧
      (signedEvent none).covered = (signedEvent (some .null)).covered := by
  have hcovers := @signature_covers _ _ eventScheme ratioText (fun _ => "")
    (twoSignatures_correct _)
  have hnone := (hcovers.1 (oneEvent none) ()).1
  have hnull := (hcovers.1 (oneEvent (some .null)) ()).1
  have hbytes := signedEvent_bytes none rfl
  have hbytes' := signedEvent_bytes (some .null) (signableBytes_null ratioText)
  exact ⟨hnone, hcovers.2 (signedEvent none) (signedEvent (some .null)) () (List.replicate 64 0)
    eventScheme_binds hbytes hbytes' hnone hnull⟩

/-- Yet they differ as they were declared; and the structure check of a signed manifest can fail. -/
theorem null_schema_shares_signature :
    eventScheme.Correct ∧ eventScheme.Binds () (List.replicate 64 0) ∧
      (signedEvent none).signatureBytes = some (List.replicate 64 0) ∧
      (signedEvent (some .null)).signatureBytes = some (List.replicate 64 0) ∧
      verifyManifestSignature eventScheme ratioText (fun _ => "") (signedEvent none) () = .ok () ∧
      verifyManifestSignature eventScheme ratioText (fun _ => "") (signedEvent (some .null)) () =
        .ok () ∧
      (signedEvent none).triggers ≠ (signedEvent (some .null)).triggers ∧
      verifyManifest
        (signManifest eventScheme ratioText { oneEvent none with name := "" } ()).1.structural =
          .error (.manifestInvalid "name is empty") := by
  refine ⟨twoSignatures_correct _, eventScheme_binds, signedEvent_bytes none rfl,
    signedEvent_bytes _ (signableBytes_null ratioText),
    verified_signed (twoSignatures_correct _) _ (),
    verified_signed (twoSignatures_correct _) _ (), ?_, rfl⟩
  intro h
  have hschema := congrArg (List.map (·.schema)) h
  cases hschema

end Springtale.Connector.Signing
