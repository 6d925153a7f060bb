import Springtale.Lib.HashChain
import Springtale.Sentinel.Retention

/-! The tip of the audit chain commits to the whole trail when the digest tells its inputs apart. -/
namespace Springtale.Sentinel

open Springtale.Core Springtale.Lib

theorem asBytes_append (s t : String) : asBytes (s ++ t) = asBytes s ++ asBytes t := by
  simp [asBytes]

theorem asBytes_injective : Function.Injective asBytes := by
  intro s t h
  exact String.toByteArray_inj.mp (ByteArray.ext (Array.toList_inj.mp h))

theorem length_le_asBytes (text : List Char) :
    text.length ≤ (asBytes (String.ofList text)).length := by
  induction text with
  | nil => exact Nat.zero_le _
  | cons c text ih =>
    have hcons : String.ofList (c :: text) = String.ofList [c] ++ String.ofList text := by
      rw [← String.ofList_append, List.singleton_append]
    have hne : asBytes (String.ofList [c]) ≠ [] := by
      simp [asBytes, List.utf8Encode_singleton, String.utf8EncodeChar_ne_nil]
    have hpos := List.length_pos_iff.mpr hne
    rw [hcons, asBytes_append, List.length_append, List.length_cons]
    omega

/-- The first mark ends the part before it. -/
theorem split_at_mark {α : Type} {mark : α} {p q a b : List α} (hp : mark ∉ p) (hq : mark ∉ q)
    (h : p ++ mark :: a = q ++ mark :: b) : p = q ∧ a = b := by
  induction p generalizing q with
  | nil =>
    cases q with
    | nil => exact ⟨rfl, (List.cons.inj h).2⟩
    | cons x q => exact absurd ((List.cons.inj h).1 ▸ List.mem_cons_self) hq
  | cons y p ih =>
    cases q with
    | nil => exact absurd ((List.cons.inj h).1 ▸ List.mem_cons_self) hp
    | cons x q =>
      obtain ⟨rfl, hrest⟩ := List.cons.inj h
      obtain ⟨rfl, rfl⟩ := ih (fun hmem => hp (List.mem_cons_of_mem _ hmem))
        (fun hmem => hq (List.mem_cons_of_mem _ hmem)) hrest
      exact ⟨rfl, rfl⟩

/-- Texts without an opening brace, which every canonical row starts with. -/
def BraceFree (s : String) : Prop := '{' ∉ s.toList

theorem braceFree_hexEncode (bytes : List UInt8) : BraceFree (String.ofList (hexEncode bytes)) := by
  have hdigit : ∀ n < 16, hexDigit n ≠ '{' := by decide
  intro hmem
  simp only [String.toList_ofList, hexEncode, List.mem_flatMap, List.mem_cons, List.not_mem_nil,
    or_false] at hmem
  obtain ⟨b, -, heq | heq⟩ := hmem
  · exact hdigit _ (by have := b.toNat_lt; omega) heq.symm
  · exact hdigit _ (by omega) heq.symm

variable {DateTime : Type} (crates : Crates DateTime)

/-- The hash of the fields of a row after a hash. -/
def hashFields (prevHash : String) (fields : List (String × String)) : String :=
  hashRow crates prevHash (String.ofList (objectCodec.write fields))

variable {crates} {i : Nat} {prev anchor : String} {rows rows' : List (AuditEntry DateTime)}
  {a b : AuditEntry DateTime} {x y : List (String × String)}

theorem hashFields_eq (hdigest : Function.Injective crates.sha256) {h h' : String}
    (heq : hashFields crates h x = hashFields crates h' y) :
    h.toList ++ objectCodec.write x = h'.toList ++ objectCodec.write y := by
  have hbytes := hdigest (hexEncode_injective (String.ofList_injective heq))
  rw [← asBytes_append, ← asBytes_append] at hbytes
  simpa using congrArg String.toList (asBytes_injective hbytes)

theorem chaining_hashFields (hdigest : Function.Injective crates.sha256) :
    Chaining (hashFields crates) BraceFree where
  isHash_hash h x := braceFree_hexEncode _
  inj := by
    intro h h' x y hh hh' heq
    obtain ⟨hprev, htail⟩ := split_at_mark hh hh' (hashFields_eq hdigest heq)
    refine ⟨String.toList_injective hprev, objectCodec.write_injective ?_⟩
    exact congrArg ('{' :: ·) htail
  inj_content := by
    intro h x y heq
    exact objectCodec.write_injective (List.append_cancel_left (hashFields_eq hdigest heq))

theorem Chained.lastHash_eq (h : Chained crates i prev rows) :
    lastHash prev rows = chainTip (hashFields crates) prev (rows.map (canonicalRow crates)) := by
  induction rows generalizing i prev with
  | nil => rfl
  | cons row rows ih =>
    obtain ⟨-, -, hhash, hrows⟩ := h
    rw [lastHash_cons, ih hrows, hhash]
    rfl

theorem canonical_ext (hlawful : crates.Lawful)
    (hfields : canonicalRow crates a = canonicalRow crates b) (hseq : a.chainSeq = b.chainSeq)
    (hprev : a.prevHash = b.prevHash) (hhash : a.rowHash = b.rowHash) : a = b := by
  simp only [canonicalRow, List.cons.injEq, Prod.mk.injEq, true_and, and_true] at hfields
  obtain ⟨hsummary, htype, hname, hid, hresult, htime, hverdict, hreason⟩ := hfields
  have hid := hlawful.idText hid
  have htime := hlawful.toRfc3339 htime
  cases a
  cases b
  subst_vars
  simp_all only

/-- In a chain the contents give the chain columns. -/
theorem Chained.ext (hlawful : crates.Lawful) (h : Chained crates i prev rows)
    (h' : Chained crates i prev rows')
    (hrow : rows.map (canonicalRow crates) = rows'.map (canonicalRow crates)) : rows = rows' := by
  induction rows generalizing i prev rows' with
  | nil => exact (List.map_eq_nil_iff.mp hrow.symm).symm
  | cons a rows ih =>
    cases rows' with
    | nil => cases hrow
    | cons b rows' =>
      obtain ⟨hseq, hprev, hhash, hrows⟩ := h
      obtain ⟨hseq', hprev', hhash', hrows'⟩ := h'
      obtain ⟨hfields, htail⟩ := List.cons.inj hrow
      have hhashes : a.rowHash = b.rowHash := by
        rw [hhash, hhash', computeRowHash, computeRowHash, canonicalRowJson, canonicalRowJson,
          hfields]
      obtain rfl := ih hrows (hhashes ▸ hrows') htail
      rw [canonical_ext hlawful hfields (hseq.trans hseq'.symm) (hprev.trans hprev'.symm) hhashes]

/-- The keys alone are longer than a public key. -/
theorem length_canonicalRow (crates : Crates DateTime) (entry : AuditEntry DateTime) :
    32 < (objectCodec.write (canonicalRow crates entry)).length := by
  have hsummary : stringCodec.write "action_summary" = "\"action_summary\"".toList := by decide
  have htype : stringCodec.write "action_type" = "\"action_type\"".toList := by decide
  have hname : stringCodec.write "connector_name" = "\"connector_name\"".toList := by decide
  simp only [objectCodec, Codec.list, memberCodec, Codec.pair, canonicalRow, Codec.writeItems, hsummary, htype,
    hname, List.length_cons, List.length_append]
  simp
  omega

theorem hashFields_ne_genesis (hdigest : Function.Injective crates.sha256)
    (publicBytes : Vector UInt8 32) (h : String) (entry : AuditEntry DateTime) :
    hashFields crates h (canonicalRow crates entry) ≠
      vaultGenesisAnchor crates publicBytes.toList := by
  intro heq
  have hbytes := hdigest (hexEncode_injective (String.ofList_injective heq))
  have hlength := congrArg List.length hbytes
  have hrow := length_canonicalRow crates entry
  have hle := length_le_asBytes (objectCodec.write (canonicalRow crates entry))
  simp at hlength
  omega

variable {store store' : AuditStore DateTime} {ok ok' : ChainOk}

/-- What two accepted trails report as tips are tips of chains of their rows. -/
theorem tips_eq (hok : verifyChain crates store anchor = .ok ok)
    (hok' : verifyChain crates store' anchor = .ok ok') (htip : ok.tipHash = ok'.tipHash) :
    chainTip (hashFields crates) anchor (store.listAuditChain.map (canonicalRow crates)) =
      chainTip (hashFields crates) anchor (store'.listAuditChain.map (canonicalRow crates)) := by
  obtain ⟨hchained, rfl⟩ := verifyChain_ok_iff.mp hok
  obtain ⟨hchained', rfl⟩ := verifyChain_ok_iff.mp hok'
  rw [← hchained.lastHash_eq, ← hchained'.lastHash_eq]
  exact htip

theorem listAuditChain_ext (hlawful : crates.Lawful) (hok : verifyChain crates store anchor = .ok ok)
    (hok' : verifyChain crates store' anchor = .ok ok')
    (hrows : store.listAuditChain.map (canonicalRow crates) =
      store'.listAuditChain.map (canonicalRow crates)) :
    store.listAuditChain = store'.listAuditChain :=
  (verifyChain_ok_iff.mp hok).1.ext hlawful (verifyChain_ok_iff.mp hok').1 hrows

/-- Accepted trails of one length with one tip are the same; and no change of a trail that starts
from the anchor of a vault is accepted with its tip. -/
theorem accepted_trail_of_tip (crates : Crates DateTime) (hlawful : crates.Lawful)
    (hdigest : Function.Injective crates.sha256) :
    (∀ (store store' : AuditStore DateTime) anchor ok ok',
      verifyChain crates store anchor = .ok ok → verifyChain crates store' anchor = .ok ok' →
      store.auditTrail.length = store'.auditTrail.length → ok.tipHash = ok'.tipHash →
      store.listAuditChain = store'.listAuditChain) ∧
    ∀ (store store' : AuditStore DateTime) (publicBytes : Vector UInt8 32) ok ok',
      verifyChain crates store (vaultGenesisAnchor crates publicBytes.toList) = .ok ok →
      store'.listAuditChain ≠ store.listAuditChain →
      verifyChain crates store' (vaultGenesisAnchor crates publicBytes.toList) = .ok ok' →
      ok'.tipHash ≠ ok.tipHash := by
  constructor
  · intro store store' anchor ok ok' hok hok' hlength htip
    apply listAuditChain_ext hlawful hok hok'
    apply (chaining_hashFields hdigest).commit _ _ _ (tips_eq hok hok' htip)
    simpa [AuditStore.listAuditChain] using hlength
  · intro store store' publicBytes ok ok' hok hne hok' htip
    have hfresh : ∀ fields ∈ store.listAuditChain.map (canonicalRow crates) ++
        store'.listAuditChain.map (canonicalRow crates), ∀ h,
        hashFields crates h fields ≠ vaultGenesisAnchor crates publicBytes.toList := by
      intro fields hfields h
      rw [← List.map_append] at hfields
      obtain ⟨entry, -, rfl⟩ := List.mem_map.mp hfields
      exact hashFields_ne_genesis hdigest publicBytes h entry
    have hrows := (chaining_hashFields hdigest).commit_of_fresh (braceFree_hexEncode _) _ _ hfresh
      (tips_eq hok hok' htip.symm)
    exact hne (listAuditChain_ext hlawful hok hok' hrows).symm

theorem plainCrates_lawful : plainCrates.Lawful where
  idText := by
    intro m n h
    have hdecimal := String.ofList_injective h
    rw [← ofDigits_decimal m, ← ofDigits_decimal n, hdecimal]
  toRfc3339 := Function.injective_id

/-- The anchor of a key of zero bytes. -/
def zeroAnchor : String := vaultGenesisAnchor plainCrates (Vector.replicate 32 0).toList

theorem accepted_trail_of_tip_rows :
    let store (calls : List (AuditCall String)) :=
      AuditStore.after plainCrates (fun _ => some zeroAnchor) calls
    (store [agedRow, freshRow]).listAuditChain =
        ({ store [agedRow, freshRow] with config := fun _ => none }).listAuditChain ∧
      ∃ ok ok', verifyChain plainCrates (store [agedRow]) zeroAnchor = .ok ok ∧
        verifyChain plainCrates (store [agedRow, freshRow]) zeroAnchor = .ok ok' ∧
        ok'.tipHash ≠ ok.tipHash := by
  intro store
  obtain ⟨hone, htwo⟩ := verifies_rows fun _ => some zeroAnchor
  obtain ⟨ok, hok⟩ := hone.exists_ok
  obtain ⟨ok', hok'⟩ := htwo.exists_ok
  have hmain := accepted_trail_of_tip plainCrates plainCrates_lawful Function.injective_id
  refine ⟨hmain.1 _ _ _ _ _ hok' hok' rfl rfl, ok, ok', hok, hok', ?_⟩
  refine hmain.2 _ _ _ _ _ hok ?_ hok'
  intro heq
  have hlength := congrArg List.length heq
  simp [AuditStore.listAuditChain] at hlength
  exact absurd hlength (by decide)

end Springtale.Sentinel
