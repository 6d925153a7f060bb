import Springtale.Crypto.Region
import Springtale.Lib.TextCodec

/-! The JSON text of a vault envelope, and the regions whose text reaches into the trailer. -/
namespace Springtale.Crypto

open Springtale.Lib

/-- An entry map, listed in the order it is written; each key is there once. -/
structure EntryMap where
  entries : List (String × Bytes)
  nodup : (entries.map Prod.fst).Nodup

def bytesCodec : Codec Bytes :=
  Codec.list '[' ']' byteCodec (by decide) (by decide) fun b => by
    obtain ⟨c, cs, h⟩ := List.exists_cons_of_ne_nil (decimal_ne_nil b.toNat)
    refine ⟨c, cs, h, ?_⟩
    rintro rfl
    exact absurd (decimal_isDigit b.toNat ']' (by simp [h])) (by decide)

/-- `"key":[1,2,3]` -/
def entryCodec : Codec (String × Bytes) :=
  Codec.pair [] [':'] [] stringCodec bytesCodec (fun _ => delimited_cons (by decide))
    fun _ h => h

def entriesCodec : Codec (List (String × Bytes)) :=
  Codec.list '{' '}' entryCodec (by decide) (by decide) fun e => ⟨'"', _, rfl, by decide⟩

def memoryText : List Char := "\x7b\"memory_kib\":".toList
def iterationsText : List Char := ",\"iterations\":".toList
def parallelismText : List Char := ",\"parallelism\":".toList
def entriesText : List Char := ",\"entries\":".toList

def algorithmsText : List Char :=
  "\x7b\"aead\":\"x_cha_cha20_poly1305\",\"kdf\":\"argon2id\",\"kdf_params\":".toList

def paramsCodec : Codec (Nat × Nat × Nat) :=
  Codec.pair memoryText iterationsText ['}'] natCodec
    (Codec.pair [] parallelismText [] natCodec natCodec
      (fun _ => delimited_cons (by decide)) fun _ h => h)
    (fun _ => delimited_cons (by decide)) fun _ _ => delimited_cons (by decide)

def envelopeCodec : Codec ((Nat × Nat × Nat) × List (String × Bytes)) :=
  Codec.pair algorithmsText entriesText ['}'] paramsCodec entriesCodec
    (fun _ => delimited_cons (by decide)) fun _ _ => delimited_cons (by decide)

def utf8 (text : List Char) : Bytes :=
  text.flatMap String.utf8EncodeChar

/-- Decodes the bytes and reads them to the end. -/
def readText {α : Type} (codec : Codec α) (bytes : Bytes) : Option α := do
  let text ← bytes.toByteArray.utf8Decode?
  let (a, rest) ← codec.read text.toList
  if rest = [] then some a else none

theorem readText_utf8 {α : Type} (codec : Codec α) (a : α) :
    readText codec (utf8 (codec.write a)) = some a := by
  have hdecode : (utf8 (codec.write a)).toByteArray.utf8Decode? =
      some (codec.write a).toArray := List.utf8Decode?_utf8Encode
  have hread := codec.read_write a [] delimited_nil
  rw [List.append_nil] at hread
  simp [readText, hdecode, hread]

def EntryMap.ofList (entries : List (String × Bytes)) : Option EntryMap :=
  if h : (entries.map Prod.fst).Nodup then some ⟨entries, h⟩ else none

theorem EntryMap.ofList_entries (m : EntryMap) : EntryMap.ofList m.entries = some m := by
  simp [ofList, m.nodup]

/-- The compact writer, with the reader of exactly its texts. -/
def vaultSerde : Serde EntryMap where
  toVec v := .ok (utf8 (envelopeCodec.write
    ((v.kdfParams.memoryKib, v.kdfParams.iterations, v.kdfParams.parallelism),
      v.entries.entries)))
  fromSlice bytes := do
    let ((memoryKib, iterations, parallelism), entries) ← readText envelopeCodec bytes
    let entries ← EntryMap.ofList entries
    return ⟨.xChaCha20Poly1305, .argon2id, ⟨memoryKib, iterations, parallelism⟩, entries⟩
  fromSliceMap bytes :=
    match (readText entriesCodec bytes).bind EntryMap.ofList with
    | some entries => .ok entries
    | none => .error "expected a map of byte arrays"

theorem vaultSerde_lawful : vaultSerde.Lawful where
  fromSlice_toVec := by
    intro envelope bytes h
    obtain rfl := Except.ok.inj h
    obtain ⟨aead, kdf, params, entries⟩ := envelope
    cases aead
    cases kdf
    simp [vaultSerde, readText_utf8, EntryMap.ofList_entries]

/-- A cipher that masks each byte with the first of the key and repeats that byte as the tag. -/
def maskPrimitives : Primitives where
  deriveKey passphrase salt := .ok (Vector.ofFn fun i => (passphrase ++ salt.toList).getD i 0)
  encrypt key _ plaintext := some (plaintext.map (· ^^^ key[0]) ++ List.replicate 16 key[0])
  decrypt key _ ciphertext :=
    let n := ciphertext.length - 16
    if ciphertext.length < 16 ∨ ciphertext.drop n ≠ List.replicate 16 key[0] then none
    else some ((ciphertext.take n).map (· ^^^ key[0]))

theorem maskPrimitives_lawful : maskPrimitives.Lawful where
  decrypt_encrypt := by
    intro key nonce plaintext ciphertext h
    obtain rfl := Option.some.inj h
    have hunmask : (fun b => b ^^^ key[0]) ∘ (fun b => b ^^^ key[0]) = id := by
      funext b
      rw [Function.comp_apply, UInt8.xor_assoc, UInt8.xor_self, UInt8.xor_zero, id]
    simp [maskPrimitives, hunmask]
  length_encrypt := by
    intro key nonce plaintext ciphertext h
    obtain rfl := Option.some.inj h
    simp

/-- One entry of zero bytes. -/
def zeroEntry (n : Nat) : EntryMap := ⟨[("k", List.replicate n 0)], by simp⟩

theorem length_utf8_append (a b : List Char) :
    (utf8 (a ++ b)).length = (utf8 a).length + (utf8 b).length := by
  simp [utf8]

theorem length_utf8_cons (c : Char) (a : List Char) :
    (utf8 (c :: a)).length = c.utf8Size + (utf8 a).length := by
  simp [utf8, String.length_utf8EncodeChar]

theorem length_utf8_zeros (n : Nat) :
    (utf8 (Codec.writeItems ']' byteCodec (List.replicate (n + 1) 0))).length = 2 * n + 2 := by
  have hzero : byteCodec.write 0 = ['0'] := by
    change decimal 0 = _
    rw [decimal]
    decide
  induction n with
  | zero => simp [Codec.writeItems, hzero, length_utf8_cons]; rfl
  | succ n ih =>
    have hstep : Codec.writeItems ']' byteCodec (List.replicate (n + 2) 0) =
        ['0', ','] ++ Codec.writeItems ']' byteCodec (List.replicate (n + 1) 0) := by
      simp [List.replicate_succ, Codec.writeItems, hzero]
    rw [hstep, length_utf8_append, ih]
    have hpair : (utf8 ['0', ',']).length = 2 := by decide
    omega

/-- The text of the envelope up to the opening bracket of the value of the key "k". -/
def envelopeHead : List Char :=
  algorithmsText ++ memoryText ++ ['6', '5', '5', '3', '6'] ++ iterationsText ++ ['3'] ++
    parallelismText ++ ['4', '}'] ++ entriesText ++ ['{', '"', 'k', '"', ':', '[']

theorem write_zeroEntry (n : Nat) :
    envelopeCodec.write ((65536, 3, 4), (zeroEntry n).entries) =
      envelopeHead ++ Codec.writeItems ']' byteCodec (List.replicate n 0) ++ ['}', '}'] := by
  have hmemory : decimal 65536 = ['6', '5', '5', '3', '6'] := by
    simp [decimal]
    decide
  have hiterations : decimal 3 = ['3'] := by
    rw [decimal]
    decide
  have hparallelism : decimal 4 = ['4'] := by
    rw [decimal]
    decide
  have hkey : stringCodec.write "k" = ['"', 'k', '"'] := by decide
  simp only [envelopeCodec, paramsCodec, entriesCodec, entryCodec, bytesCodec, natCodec, Codec.pair,
    Codec.list, Codec.writeItems, zeroEntry, hmemory, hiterations, hparallelism, hkey,
    envelopeHead, List.append_assoc, List.nil_append, List.cons_append, List.append_nil]

theorem length_zeroEntry (n : Nat) :
    (utf8 (envelopeCodec.write ((65536, 3, 4), (zeroEntry (n + 1)).entries))).length =
      2 * n + 133 := by
  have hhead : (utf8 envelopeHead).length = 129 := by decide +kernel
  have htail : (utf8 ['}', '}']).length = 2 := by decide
  rw [write_zeroEntry, length_utf8_append, length_utf8_append, length_utf8_zeros, hhead, htail]
  omega

theorem toVec_zeroEntry (n : Nat) :
    vaultSerde.toVec (VaultPlaintext.withDefaults (zeroEntry n)) =
      .ok (utf8 (envelopeCodec.write ((65536, 3, 4), (zeroEntry n).entries))) := rfl

def zeroSalt : Salt := Vector.replicate 16 0
def zeroNonce : Nonce := Vector.replicate 24 0

theorem deriveKey_zeroSalt :
    maskPrimitives.deriveKey [] zeroSalt = .ok (Vector.replicate 32 0) := by
  decide +kernel

/-- An entry that fits the region is written, whatever the padding. -/
theorem encryptRegion_zeroEntry {n : Nat} (h : 2 * n + 133 ≤ maxPlaintextSize) :
    ∃ region, encryptRegion maskPrimitives vaultSerde [] zeroSalt zeroNonce (fun _ => 0)
      (zeroEntry (n + 1)) = .ok region := by
  have hfits : ¬ (utf8 (envelopeCodec.write
      ((65536, 3, 4), (zeroEntry (n + 1)).entries))).length > maxPlaintextSize := by
    rw [length_zeroEntry]
    omega
  simp only [encryptRegion, deriveKey_zeroSalt, sealRegion, toVec_zeroEntry, if_neg hfits]
  exact ⟨_, rfl⟩

/-- Two zero bytes survive: the region of a small vault opens to its entries. -/
theorem decryptRegion_small :
    ∃ region, decryptRegion maskPrimitives vaultSerde region [] =
      .ok (zeroEntry 2, zeroSalt, Vector.replicate 32 0) := by
  obtain ⟨region, hregion⟩ := encryptRegion_zeroEntry (n := 1) (by decide)
  refine ⟨region, (decryptRegion_written_iff maskPrimitives_lawful vaultSerde_lawful
    (.created deriveKey_zeroSalt hregion)).mpr ?_⟩
  intro plaintext h
  rw [toVec_zeroEntry] at h
  obtain rfl := Except.ok.inj h
  rw [length_zeroEntry]
  decide

/-- A value of 32691 zero bytes makes an envelope of 65513, which is written but never opens. -/
theorem decryptRegion_lost :
    ¬ ∀ (prims : Primitives) (serde : Serde EntryMap), prims.Lawful → serde.Lawful →
      ∀ (passphrase region : Bytes) (salt : Salt) (key : Key) (entries : EntryMap),
        Written prims serde passphrase salt key entries region →
          decryptRegion prims serde region passphrase = .ok (entries, salt, key) := by
  intro h
  obtain ⟨region, hregion⟩ := encryptRegion_zeroEntry (n := 32690) (by decide)
  have hopen := h maskPrimitives vaultSerde maskPrimitives_lawful vaultSerde_lawful [] region
    zeroSalt (Vector.replicate 32 0) (zeroEntry 32691) (.created deriveKey_zeroSalt hregion)
  have hwritten : Written maskPrimitives vaultSerde [] zeroSalt (Vector.replicate 32 0)
      (zeroEntry 32691) region := .created deriveKey_zeroSalt hregion
  obtain ⟨hkey, nonce, random, hseal⟩ := hwritten.sealed
  have hlong : ¬ (utf8 (envelopeCodec.write ((65536, 3, 4), (zeroEntry 32691).entries))).length ≤
      lenOffset := by
    rw [length_zeroEntry 32690]
    decide
  rw [decryptRegion_sealRegion maskPrimitives_lawful vaultSerde_lawful hkey
    (toVec_zeroEntry 32691) hseal, if_neg hlong] at hopen
  cases hopen

end Springtale.Crypto
