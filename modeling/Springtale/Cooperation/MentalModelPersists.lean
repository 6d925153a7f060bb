import Mathlib.Data.List.Pairwise
import Springtale.Cooperation.MentalModelTables
import Springtale.Lib.TextCodec

/-! Which mental models survive their tables, and why the models that the bot makes can be saved. -/
namespace Springtale.Cooperation

open Springtale.Core Springtale.Beat Springtale.Lib

variable {γ ω : Type*} {text : RowText}

/-- The store of mental models over the tables. -/
def BackendStore.save (text : RowText) (nowUnix : Int) (formationId : String)
    (model : SharedMentalModel γ ω) (db : MentalTables) :
    MentalTables × Except DatabaseError Unit :=
  db.mentalModelSaveImpl formationId (model.toBundle text nowUnix)

/-- No strength is a NaN, and no two rows of a table would have one key. -/
structure SharedMentalModel.Savable (m : SharedMentalModel γ ω) : Prop where
  confidence : ∀ key entry, m.domainKnowledge.get key = some entry → entry.confidence ≠ .nan
  names : ∀ agent caps, m.capabilityAwareness.get agent = some caps → (caps.map (·.name)).Nodup
  terms : ∀ key key' entry entry', m.sharedVocabulary.get key = some entry →
    m.sharedVocabulary.get key' = some entry' → entry.term = entry'.term → key = key'
  strength : ∀ c ∈ m.conventions, c.strength ≠ .nan

section Savable

theorem domainTable_accepts_iff (domain : HashMap String DomainEntry) (nowUnix : Int) :
    domainTable.Accepts (domain.iter.map fun (key, entry) =>
      ⟨key, entry.description, nowUnix, entry.confidence⟩) ↔
      ∀ key entry, domain.get key = some entry → entry.confidence ≠ .nan := by
  constructor
  · intro haccepts key entry hget hnan
    have hrow := haccepts.present ⟨key, entry.description, nowUnix, entry.confidence⟩
      (List.mem_map.mpr ⟨(key, entry), HashMap.mem_iter_iff.mpr hget, rfl⟩)
    simp [domainTable, hnan] at hrow
  · intro hnumbers
    constructor
    · intro r hr
      obtain ⟨⟨key, entry⟩, hpair, rfl⟩ := List.mem_map.mp hr
      exact if_neg (hnumbers key entry (HashMap.mem_iter_iff.mp hpair))
    · have hkeys := domain.nodup_iter
      rw [List.Nodup, List.pairwise_map] at hkeys
      rw [List.pairwise_map]
      exact hkeys.imp fun hne => decide_eq_false hne

theorem capabilityTable_accepts_iff (caps : HashMap Uuid (List CapabilityDecl)) :
    capabilityTable.Accepts (caps.iter.flatMap fun (agent, caps) =>
      caps.map fun cap => ⟨text.idText agent, cap.name⟩) ↔
      ∀ agent declared, caps.get agent = some declared → (declared.map (·.name)).Nodup := by
  have haccepts : ∀ rows, capabilityTable.Accepts rows ↔ rows.Nodup := by
    intro rows
    constructor
    · rintro ⟨-, hdistinct⟩
      exact hdistinct.imp fun hne => of_decide_eq_false hne
    · intro hnodup
      exact ⟨fun _ _ => rfl, hnodup.imp fun hne => decide_eq_false hne⟩
  rw [haccepts, List.nodup_flatMap]
  have hrow : ∀ agent (declared : List CapabilityDecl),
      (declared.map fun cap => (⟨text.idText agent, cap.name⟩ : CapabilityRow)).Nodup ↔
        (declared.map (·.name)).Nodup := by
    intro agent declared
    have hmap : (declared.map fun cap => (⟨text.idText agent, cap.name⟩ : CapabilityRow)) =
        (declared.map (·.name)).map fun name => ⟨text.idText agent, name⟩ := by
      rw [List.map_map]
      rfl
    rw [hmap]
    refine List.nodup_map_iff fun name name' h => ?_
    exact (CapabilityRow.mk.inj h).2
  constructor
  · rintro ⟨hnodup, -⟩ agent declared hget
    exact (hrow agent declared).mp (hnodup (agent, declared) (HashMap.mem_iter_iff.mpr hget))
  · intro hnames
    constructor
    · rintro ⟨agent, declared⟩ hpair
      exact (hrow agent declared).mpr (hnames agent declared (HashMap.mem_iter_iff.mp hpair))
    · have hagents := caps.nodup_iter
      rw [List.Nodup, List.pairwise_map] at hagents
      refine hagents.imp fun {x y} hne => ?_
      intro r hx hy
      obtain ⟨cap, -, rfl⟩ := List.mem_map.mp hx
      obtain ⟨cap', -, heq⟩ := List.mem_map.mp hy
      exact hne (text.idText_injective (CapabilityRow.mk.inj heq).1.symm)

theorem patternTable_accepts (rows : List PatternRow) : patternTable.Accepts rows :=
  ⟨fun _ _ => rfl, List.pairwise_of_forall fun _ _ => rfl⟩

theorem vocabularyTable_accepts_iff (vocabulary : HashMap String VocabularyEntry) :
    vocabularyTable.Accepts (vocabulary.iter.map fun (_, entry) =>
      ⟨entry.term, entry.meaning, text.idsJson entry.establishedBy⟩) ↔
      ∀ key key' entry entry', vocabulary.get key = some entry →
        vocabulary.get key' = some entry' → entry.term = entry'.term → key = key' := by
  have hkeys := vocabulary.nodup_iter
  constructor
  · rintro ⟨-, hdistinct⟩ key key' entry entry' hget hget' hterm
    rw [List.pairwise_map] at hdistinct
    by_contra hne
    have hpair := HashMap.mem_iter_iff.mpr hget
    have hpair' := HashMap.mem_iter_iff.mpr hget'
    have : Std.Symm fun (e e' : String × VocabularyEntry) => e.2.term ≠ e'.2.term :=
      ⟨fun _ _ h => h.symm⟩
    have hdistinct' : vocabulary.iter.Pairwise fun e e' => e.2.term ≠ e'.2.term :=
      hdistinct.imp fun hne => of_decide_eq_false hne
    exact hdistinct'.forall hpair hpair' (fun h => hne (congrArg Prod.fst h)) hterm
  · intro hterms
    refine ⟨fun _ _ => rfl, ?_⟩
    rw [List.pairwise_map]
    rw [List.Nodup, List.pairwise_map] at hkeys
    refine (List.Pairwise.and_mem.mp hkeys).imp fun {x y} h => ?_
    obtain ⟨hx, hy, hne⟩ := h
    exact decide_eq_false fun hterm =>
      hne (hterms _ _ _ _ (HashMap.mem_iter_iff.mp hx) (HashMap.mem_iter_iff.mp hy) hterm)

theorem conventionTable_accepts_iff (conventions : List Convention) :
    conventionTable.Accepts (conventions.map fun c =>
      ⟨c.description, text.idsJson c.establishedBy, c.strength⟩) ↔
      ∀ c ∈ conventions, c.strength ≠ .nan := by
  constructor
  · intro haccepts c hc hnan
    have hrow := haccepts.present ⟨c.description, text.idsJson c.establishedBy, c.strength⟩
      (List.mem_map.mpr ⟨c, hc, rfl⟩)
    simp [conventionTable, hnan] at hrow
  · intro hnumbers
    refine ⟨fun r hr => ?_, List.pairwise_of_forall fun _ _ => rfl⟩
    obtain ⟨c, hc, rfl⟩ := List.mem_map.mp hr
    exact if_neg (hnumbers c hc)

theorem toBundle_accepted_iff (nowUnix : Int) (m : SharedMentalModel γ ω) :
    (m.toBundle text nowUnix).Accepted ↔ m.Savable := by
  constructor
  · intro haccepted
    exact ⟨(domainTable_accepts_iff m.domainKnowledge nowUnix).mp haccepted.domain,
      (capabilityTable_accepts_iff m.capabilityAwareness).mp haccepted.capability,
      (vocabularyTable_accepts_iff m.sharedVocabulary).mp haccepted.vocabulary,
      (conventionTable_accepts_iff m.conventions).mp haccepted.convention⟩
  · intro hsavable
    exact ⟨(domainTable_accepts_iff m.domainKnowledge nowUnix).mpr hsavable.confidence,
      (capabilityTable_accepts_iff m.capabilityAwareness).mpr hsavable.names,
      patternTable_accepts _,
      (vocabularyTable_accepts_iff m.sharedVocabulary).mpr hsavable.terms,
      (conventionTable_accepts_iff m.conventions).mpr hsavable.strength⟩

theorem save_ok_iff (nowUnix : Int) (formationId : String) (m : SharedMentalModel γ ω)
    (db db' : MentalTables) :
    BackendStore.save text nowUnix formationId m db = (db', .ok ()) ↔
      m.Savable ∧ db' = db.written formationId (m.toBundle text nowUnix) := by
  rw [BackendStore.save, MentalTables.mentalModelSaveImpl_ok_iff, toBundle_accepted_iff]

end Savable

section Learning

def Real32.positive : Real32 → Bool
  | .nan => false
  | .infinite negative => !negative
  | .finite x => decide (0 < x)

theorem Real32.ne_nan_of_positive {x : Real32} (h : x.positive = true) : x ≠ .nan := by
  rintro rfl
  cases h

/-- An earlier formation, with the description that is made of its note. -/
structure PriorOutcome where
  formationId : Uuid
  description : String
  score : Real32

/-- Of the notes in the order of their scores, the best that are relevant at all. -/
def retrieveRelevant (ranked : List PriorOutcome) (k : Nat) : List PriorOutcome :=
  (ranked.filter (·.score.positive)).take k

def seedMentalModelFromPriorOutcomes (text : RowText) (now : Nat) (ranked : List PriorOutcome)
    (m : SharedMentalModel γ ω) : SharedMentalModel γ ω :=
  { m with
    domainKnowledge := (retrieveRelevant ranked 5).foldl
      (fun domain prior => domain.insert ("prior_outcome::" ++ text.idText prior.formationId)
        ⟨prior.description, now, prior.score⟩) m.domainKnowledge }

theorem learnCapability_names {caps : HashMap Uuid (List CapabilityDecl)}
    (hnames : ∀ agent declared, caps.get agent = some declared → (declared.map (·.name)).Nodup)
    (report : TickReport) : ∀ agent declared, (learnCapability caps report).get agent =
      some declared → (declared.map (·.name)).Nodup := by
  intro agent declared hget
  rw [learnCapability] at hget
  cases haction : report.actionTaken with
  | none =>
    rw [haction] at hget
    exact hnames agent declared hget
  | some action =>
    simp only [haction, HashMap.get_insert] at hget
    have hknown : (((caps.get report.agentId).getD []).map (·.name)).Nodup := by
      cases hcaps : caps.get report.agentId with
      | none => exact List.nodup_nil
      | some known => exact hnames report.agentId known hcaps
    by_cases hagent : agent = report.agentId
    · rw [if_pos hagent] at hget
      obtain rfl := Option.some.inj hget
      split
      · exact hknown
      · rename_i hnew
        rw [List.map_append]
        refine List.nodup_append.mpr ⟨hknown, List.nodup_singleton _, ?_⟩
        intro name hname name' hname' heq
        obtain ⟨cap, hcap, rfl⟩ := List.mem_map.mp hname
        obtain rfl := List.mem_singleton.mp hname'
        exact hnew (List.any_eq_true.mpr ⟨cap, hcap, decide_eq_true heq⟩)
    · rw [if_neg hagent] at hget
      exact hnames agent declared hget

theorem updateModel_savable {m : SharedMentalModel γ ω} (hm : m.Savable) (step : StrengthStep)
    (now : Nat) (reports : List TickReport) (interferences : List InterferenceEvent)
    (allSucceeded : Bool) :
    (updateModel step now m reports interferences allSucceeded).Savable where
  confidence := hm.confidence
  names := by
    change ∀ agent declared,
      (reports.foldl learnCapability m.capabilityAwareness).get agent = some declared → _
    have hnames := hm.names
    generalize m.capabilityAwareness = caps at hnames
    induction reports generalizing caps with
    | nil => exact hnames
    | cons report reports ih => exact ih _ (learnCapability_names hnames report)
  terms := hm.terms
  strength := by
    intro c hc
    obtain ⟨c, -, rfl⟩ := List.mem_map.mp hc
    cases allSucceeded with
    | true => exact step.up_ne_nan c.strength
    | false => exact step.down_ne_nan c.strength

theorem seedMentalModel_savable {m : SharedMentalModel γ ω} (hm : m.Savable) (now : Nat)
    (ranked : List PriorOutcome) :
    (seedMentalModelFromPriorOutcomes text now ranked m).Savable where
  confidence := by
    have hpositive : ∀ prior ∈ retrieveRelevant ranked 5, prior.score ≠ .nan := by
      intro prior hprior
      have hkept := List.mem_filter.mp (List.mem_of_mem_take hprior)
      exact Real32.ne_nan_of_positive hkept.2
    have hnumbers := hm.confidence
    rw [seedMentalModelFromPriorOutcomes]
    dsimp only
    generalize m.domainKnowledge = domain at hnumbers
    generalize retrieveRelevant ranked 5 = relevant at hpositive
    induction relevant generalizing domain with
    | nil => exact hnumbers
    | cons prior priors ih =>
      obtain ⟨hprior, hrest⟩ := List.forall_mem_cons.mp hpositive
      refine ih _ ?_ hrest
      intro key entry hget
      rw [HashMap.get_insert] at hget
      split at hget
      · obtain rfl := Option.some.inj hget
        exact hprior
      · exact hnumbers key entry hget
  names := hm.names
  terms := hm.terms
  strength := hm.strength

end Learning

section Restored

/-- Tables that hold what was saved of models. -/
inductive TablesBuilt (text : RowText) (γ ω : Type*) : MentalTables → Prop
  | empty : TablesBuilt text γ ω .empty
  | save {db : MentalTables} (nowUnix : Int) (formationId : String) (m : SharedMentalModel γ ω) :
    TablesBuilt text γ ω db → TablesBuilt text γ ω (BackendStore.save text nowUnix formationId m db).1

/-- What the tables hold of saved models. -/
structure MentalTables.Constrained (text : RowText) (db : MentalTables) : Prop where
  confidence : ∀ e ∈ db.domain, e.2.confidence ≠ .nan
  distinct : ∀ formationId, (rowsOf formationId db.capability).Nodup
  owners : ∀ e ∈ db.capability, ∃ agent, e.2.agentId = text.idText agent
  strength : ∀ e ∈ db.convention, e.2.strength ≠ .nan

theorem written_constrained {db : MentalTables} (hdb : db.Constrained text) (nowUnix : Int)
    (formationId : String) {m : SharedMentalModel γ ω}
    (haccepted : (m.toBundle text nowUnix).Accepted) :
    (db.written formationId (m.toBundle text nowUnix)).Constrained text where
  confidence := by
    intro e he hnan
    rcases mem_written he with hrow | hrow
    · have hnull := haccepted.domain.present e.2 hrow
      simp [domainTable, hnan] at hnull
    · exact hdb.confidence e hrow hnan
  distinct := by
    intro other
    by_cases hid : formationId = other
    · subst hid
      change (rowsOf formationId (appendRows _ _ _)).Nodup
      rw [rowsOf_written]
      exact haccepted.capability.distinct.imp fun hne => of_decide_eq_false hne
    · have hrows := rowsOf_written_ne hid (m.toBundle text nowUnix).capability db.capability
      change (rowsOf other (appendRows _ _ _)).Nodup
      rw [hrows]
      exact hdb.distinct other
  owners := by
    intro e he
    rcases mem_written he with hrow | hrow
    · obtain ⟨⟨agent, declared⟩, -, hrow⟩ := List.mem_flatMap.mp hrow
      obtain ⟨cap, -, heq⟩ := List.mem_map.mp hrow
      exact ⟨agent, (congrArg CapabilityRow.agentId heq).symm⟩
    · exact hdb.owners e hrow
  strength := by
    intro e he hnan
    rcases mem_written he with hrow | hrow
    · have hnull := haccepted.convention.present e.2 hrow
      simp [conventionTable, hnan] at hnull
    · exact hdb.strength e hrow hnan

theorem tablesBuilt_constrained {db : MentalTables} (hbuilt : TablesBuilt text γ ω db) :
    db.Constrained text := by
  induction hbuilt with
  | empty => exact ⟨nofun, fun _ => List.nodup_nil, nofun, nofun⟩
  | @save db nowUnix formationId m _ ih =>
    rcases MentalTables.mentalModelSaveImpl_fst formationId (m.toBundle text nowUnix) db with
      ⟨haccepted, hsave⟩ | hsave
    · rw [BackendStore.save, hsave]
      exact written_constrained ih nowUnix formationId haccepted
    · rw [BackendStore.save, hsave]
      exact ih

end Restored

variable [Inhabited γ] [Inhabited ω]

def BackendStore.load (text : RowText) (hashers : ModelHashers) (now : Nat) (scan : Scans)
    (formationId : String) (db : MentalTables) : Except BundleError (SharedMentalModel γ ω) :=
  fromBundle text hashers now (db.mentalModelLoadImpl formationId scan)

/-- The models that the bot comes to hold. -/
inductive SharedMentalModel.Built (text : RowText) : SharedMentalModel γ ω → Prop
  | new (hashers : ModelHashers) : Built text (.new hashers)
  | update {m : SharedMentalModel γ ω} (step : StrengthStep) (now : Nat)
    (reports : List TickReport) (interferences : List InterferenceEvent) (allSucceeded : Bool) :
    Built text m → Built text (updateModel step now m reports interferences allSucceeded)
  | seed {m : SharedMentalModel γ ω} (now : Nat) (ranked : List PriorOutcome) :
    Built text m → Built text (seedMentalModelFromPriorOutcomes text now ranked m)
  | share {m : SharedMentalModel γ ω} (graph : γ) (externalWorkspaces : ω) :
    Built text m → Built text { m with graph := graph, externalWorkspaces := externalWorkspaces }
  | load {m : SharedMentalModel γ ω} {db : MentalTables} (hashers : ModelHashers) (now : Nat)
    (scan : Scans) (formationId : String) :
    TablesBuilt text γ ω db → BackendStore.load text hashers now scan formationId db = .ok m →
      Built text m

section Load

theorem loadVocabulary_terms {rows : List VocabularyRow}
    {vocabulary vocabulary' : HashMap String VocabularyEntry}
    (hload : loadVocabulary text rows vocabulary = .ok vocabulary')
    (hterms : ∀ term entry, vocabulary.get term = some entry → entry.term = term) :
    ∀ term entry, vocabulary'.get term = some entry → entry.term = term := by
  induction rows generalizing vocabulary with
  | nil =>
    cases hload
    exact hterms
  | cons r rows ih =>
    rw [loadVocabulary] at hload
    split at hload
    · cases hload
    · refine ih hload fun term entry hget => ?_
      rw [HashMap.get_insert] at hget
      split at hget
      · rename_i hterm
        obtain rfl := Option.some.inj hget
        exact hterm.symm
      · exact hterms term entry hget

theorem loadConventions_strength {rows : List ConventionRow} {conventions : List Convention}
    (hload : loadConventions text rows = .ok conventions)
    (hnumbers : ∀ r ∈ rows, r.strength ≠ .nan) : ∀ c ∈ conventions, c.strength ≠ .nan := by
  induction rows generalizing conventions with
  | nil =>
    cases hload
    exact nofun
  | cons r rows ih =>
    obtain ⟨hr, hrest⟩ := List.forall_mem_cons.mp hnumbers
    rw [loadConventions] at hload
    split at hload
    · cases hload
    · split at hload
      · cases hload
      · rename_i conventions' hconventions
        obtain rfl := Except.ok.inj hload
        exact List.forall_mem_cons.mpr ⟨hr, ih hconventions hrest⟩

theorem get_domain_confidence (now : Nat) {rows : List DomainRow}
    (hnumbers : ∀ r ∈ rows, r.confidence ≠ .nan) (domain : HashMap String DomainEntry)
    (hdomain : ∀ key entry, domain.get key = some entry → entry.confidence ≠ .nan) :
    ∀ key entry, (rows.foldl (fun m r => m.insert r.key
      (DomainEntry.mk r.description now r.confidence)) domain).get key = some entry →
        entry.confidence ≠ .nan := by
  induction rows generalizing domain with
  | nil => exact hdomain
  | cons r rows ih =>
    obtain ⟨hr, hrest⟩ := List.forall_mem_cons.mp hnumbers
    refine ih hrest _ fun key entry hget => ?_
    rw [HashMap.get_insert] at hget
    split at hget
    · obtain rfl := Option.some.inj hget
      exact hr
    · exact hdomain key entry hget

/-- A load is a load of its five parts. -/
theorem fromBundle_ok {hashers : ModelHashers} {now : Nat} {b : MentalModelBundle}
    {m : SharedMentalModel γ ω} (hload : fromBundle text hashers now b = .ok m) :
    m.domainKnowledge = b.domain.foldl
        (fun m r => m.insert r.key (DomainEntry.mk r.description now r.confidence))
        (HashMap.empty hashers.texts) ∧
      loadCapabilities text b.capability (.empty hashers.agents) = .ok m.capabilityAwareness ∧
      loadVocabulary text b.vocabulary (.empty hashers.texts) = .ok m.sharedVocabulary ∧
      loadConventions text b.convention = .ok m.conventions := by
  simp only [fromBundle] at hload
  split at hload
  · cases hload
  · rename_i capability hcapability
    split at hload
    · cases hload
    · split at hload
      · cases hload
      · rename_i vocabulary hvocabulary
        split at hload
        · cases hload
        · rename_i conventions hconventions
          obtain rfl := Except.ok.inj hload
          exact ⟨rfl, hcapability, hvocabulary, hconventions⟩

/-- What was read of constrained tables can be saved again. -/
theorem load_savable {db : MentalTables} (hdb : db.Constrained text) {hashers : ModelHashers}
    {now : Nat} {scan : Scans} {formationId : String} {m : SharedMentalModel γ ω}
    (hload : BackendStore.load text hashers now scan formationId db = .ok m) : m.Savable := by
  obtain ⟨hdomain, hcapability, hvocabulary, hconventions⟩ := fromBundle_ok hload
  have hrows : (db.stored formationId).Reordered (db.mentalModelLoadImpl formationId scan) :=
    MentalTables.stored_reordered scan db
  have hstored : ∀ {ρ : Type} {table : List (String × ρ)} {r : ρ},
      r ∈ rowsOf formationId table → ∃ e ∈ table, e.2 = r := by
    intro ρ table r hr
    obtain ⟨e, he, rfl⟩ := List.mem_map.mp hr
    exact ⟨e, List.mem_of_mem_filter he, rfl⟩
  constructor
  · rw [hdomain]
    refine get_domain_confidence now (fun r hr => ?_) _ fun _ _ hnone => by cases hnone
    obtain ⟨e, he, rfl⟩ := hstored (hrows.domain.mem_iff.mp hr)
    exact hdb.confidence e he
  · intro agent declared hget
    have howners : ∀ r ∈ (db.mentalModelLoadImpl formationId scan).capability,
        ∃ agent, r.agentId = text.idText agent := by
      intro r hr
      obtain ⟨e, he, rfl⟩ := hstored (hrows.capability.mem_iff.mp hr)
      exact hdb.owners e he
    obtain ⟨caps, hcaps, hspec⟩ := loadCapabilities_spec _ howners (.empty hashers.agents)
    rw [hcapability] at hcaps
    obtain rfl := Except.ok.inj hcaps
    have hnodup : (db.mentalModelLoadImpl formationId scan).capability.Nodup :=
      hrows.capability.nodup_iff.mpr (hdb.distinct formationId)
    rw [hspec] at hget
    split at hget
    · cases hget
    · obtain rfl := Option.some.inj hget
      rw [HashMap.get_empty, Option.getD_none, List.nil_append, List.map_map]
      refine List.Nodup.map_on ?_ (hnodup.filter _)
      intro r hr r' hr' hname
      have howner := of_decide_eq_true (List.mem_filter.mp hr).2
      have howner' := of_decide_eq_true (List.mem_filter.mp hr').2
      cases r
      cases r'
      exact CapabilityRow.mk.injEq _ _ _ _ ▸ ⟨howner.trans howner'.symm, hname⟩
  · have hterms := loadVocabulary_terms hvocabulary fun _ _ hnone => by cases hnone
    intro key key' entry entry' hget hget' hterm
    rw [← hterms key entry hget, ← hterms key' entry' hget', hterm]
  · refine loadConventions_strength hconventions fun r hr => ?_
    obtain ⟨e, he, rfl⟩ := hstored (hrows.convention.mem_iff.mp hr)
    exact hdb.strength e he

end Load

theorem SharedMentalModel.Built.savable {m : SharedMentalModel γ ω} (hm : m.Built text) :
    m.Savable := by
  induction hm with
  | new hashers => exact ⟨nofun, nofun, nofun, nofun⟩
  | update step now reports interferences allSucceeded _ ih =>
    exact updateModel_savable ih step now reports interferences allSucceeded
  | seed now ranked _ ih => exact seedMentalModel_savable ih now ranked
  | share graph externalWorkspaces _ ih => exact ⟨ih.confidence, ih.names, ih.terms, ih.strength⟩
  | load hashers now scan formationId htables hload =>
    exact load_savable (tablesBuilt_constrained htables) hload

/-- A model comes back from its bundle exactly if it is flat; it comes back from the tables exactly
if it also can be saved and the scans keep the order of its lists; and what the bot makes can
always be saved. -/
theorem mentalModel_persists_iff (text : RowText) (hashers : ModelHashers) (now : Nat)
    (nowUnix : Int) (scan : Scans) (formationId : String) (m : SharedMentalModel γ ω)
    (db : MentalTables) (others : List (String × MentalModelBundle))
    (hothers : ∀ o ∈ others, o.1 ≠ formationId) :
    ((∃ m', fromBundle text hashers now (m.toBundle text nowUnix) = .ok m' ∧ m.Same m') ↔
      m.Flat) ∧
    ((∃ db', BackendStore.save text nowUnix formationId m db = (db', .ok ()) ∧
        ∃ m', BackendStore.load text hashers now scan formationId (db'.saves others) = .ok m' ∧
          m.Same m') ↔
      m.Flat ∧ m.Savable ∧ scan.KeepsOrder formationId
        ((db.written formationId (m.toBundle text nowUnix)).saves others)) ∧
    (m.Built text → ∃ db', BackendStore.save text nowUnix formationId m db = (db', .ok ())) := by
  obtain ⟨m₁, hm₁, hsame₁⟩ := fromBundle_toBundle hashers now nowUnix m
  have hstored : ((db.written formationId (m.toBundle text nowUnix)).saves others).stored
      formationId = m.toBundle text nowUnix := by
    rw [MentalTables.stored_saves others _ hothers, MentalTables.stored_written]
  have hreordered : (m.toBundle text nowUnix).Reordered
      (((db.written formationId (m.toBundle text nowUnix)).saves others).mentalModelLoadImpl
        formationId scan) :=
    MentalTables.reordered_of_stored scan hstored
  obtain ⟨m₂, hm₂, hsame₂⟩ := fromBundle_reordered hashers now nowUnix m hreordered
  have hscan := @MentalTables.load_keepsOrder_iff formationId scan
    ((db.written formationId (m.toBundle text nowUnix)).saves others)
  rw [hstored] at hscan
  refine ⟨?_, ?_, ?_⟩
  · constructor
    · rintro ⟨m', hm', hsame⟩
      obtain rfl := Except.ok.inj (hm₁.symm.trans hm')
      exact hsame₁.mp hsame
    · intro hflat
      exact ⟨m₁, hm₁, hsame₁.mpr hflat⟩
  · simp only [save_ok_iff]
    constructor
    · rintro ⟨_, ⟨hsavable, rfl⟩, m', hm', hsame⟩
      obtain rfl := Except.ok.inj (hm₂.symm.trans hm')
      obtain ⟨hflat, hkept⟩ := hsame₂.mp hsame
      exact ⟨hflat, hsavable, hscan.mp hkept⟩
    · rintro ⟨hflat, hsavable, hkept⟩
      exact ⟨_, ⟨hsavable, rfl⟩, m₂, hm₂, hsame₂.mpr ⟨hflat, hscan.mpr hkept⟩⟩
  · intro hbuilt
    exact ⟨_, (save_ok_iff nowUnix formationId m db _).mpr ⟨hbuilt.savable, rfl⟩⟩

section Samples

def nilText : String := "00000000-0000-0000-0000-000000000000"

theorem stringCodec_head (s : String) : ∃ c cs, stringCodec.write s = c :: cs ∧ c ≠ ']' :=
  ⟨'"', _, rfl, by decide⟩

theorem bracket_isDigit : ']'.isDigit = false := by decide

theorem bracket_ne_comma : ']' ≠ ',' := by decide

def jsonList : Codec (List String) :=
  .list '[' ']' stringCodec bracket_isDigit bracket_ne_comma stringCodec_head

def readId (s : String) : Except String Uuid :=
  if s = nilText then .ok 0
  else
    match readDecimal s.toList with
    | some (id, []) => .ok id
    | _ => .error "invalid character"

def readIdList (json : String) : Except String (List String) :=
  match jsonList.read json.toList with
  | some (ids, []) => .ok ids
  | _ => .error "invalid JSON"

/-- The nil identifier in its usual text, the others by their number. -/
def numberedText : RowText where
  idText id := if id = 0 then nilText else String.ofList (decimal id)
  parseId := readId
  parseId_idText id := by
    by_cases hid : id = 0
    · rw [if_pos hid, readId, if_pos rfl, hid]
    · have hdigits : String.ofList (decimal id) ≠ nilText := by
        intro h
        have hdash : '-' ∈ decimal id := by
          have htext := congrArg String.toList h
          rw [String.toList_ofList] at htext
          rw [htext]
          decide
        exact absurd (decimal_isDigit id '-' hdash) (by decide)
      have hread := natCodec.read_write id [] delimited_nil
      rw [List.append_nil] at hread
      change readDecimal (decimal id) = _ at hread
      rw [if_neg hid, readId, if_neg hdigits, String.toList_ofList, hread]
  toJson ids := String.ofList (jsonList.write ids)
  fromJson := readIdList
  fromJson_toJson ids := by
    have hread := jsonList.read_write ids [] delimited_nil
    rw [List.append_nil] at hread
    rw [readIdList, String.toList_ofList, hread]

def insertionOrder (κ : Type) : Hasher κ := ⟨id, fun _ => .refl _⟩

def rowOrder (ρ : Type) : Scan ρ := ⟨id, fun _ => .refl _⟩

def plainHashers : ModelHashers := ⟨insertionOrder String, insertionOrder Uuid⟩

def plainScans : Scans :=
  ⟨rowOrder _, rowOrder _, rowOrder _, rowOrder _, rowOrder _⟩

/-- Two agents with what they can do, a pattern and a term of the two. -/
def pairModel : SharedMentalModel Unit Unit :=
  { SharedMentalModel.new plainHashers with
    capabilityAwareness := ((HashMap.empty plainHashers.agents).insert 1
      [.new "draft", .new "post"]).insert 2 [.new "review"]
    cooperationPatterns := [⟨"release", [1, 2], 3, 1, 40⟩]
    sharedVocabulary := (HashMap.empty plainHashers.texts).insert "done"
      ⟨"done", "reviewed and posted", [2]⟩ }

theorem pairModel_capability {agent : Uuid} {declared : List CapabilityDecl}
    (hget : pairModel.capabilityAwareness.get agent = some declared) :
    declared = [.new "review"] ∨ declared = [.new "draft", .new "post"] := by
  simp only [pairModel, HashMap.get_insert, HashMap.get_empty] at hget
  split at hget
  · exact .inl (Option.some.inj hget).symm
  · split at hget
    · exact .inr (Option.some.inj hget).symm
    · cases hget

theorem pairModel_term {key : String} {entry : VocabularyEntry}
    (hget : pairModel.sharedVocabulary.get key = some entry) : entry.term = key := by
  simp only [pairModel, HashMap.get_insert, HashMap.get_empty] at hget
  split at hget
  · rename_i hkey
    obtain rfl := Option.some.inj hget
    exact hkey.symm
  · cases hget

theorem pairModel_flat : pairModel.Flat where
  named := by
    intro agent declared hget
    rcases pairModel_capability hget with rfl | rfl
    · simp [CapabilityDecl.new]
    · simp [CapabilityDecl.new]
  terms _ _ := pairModel_term
  graph := rfl
  externalWorkspaces := rfl

theorem pairModel_savable : pairModel.Savable where
  confidence := nofun
  names := by
    intro agent declared hget
    rcases pairModel_capability hget with rfl | rfl
    · simp [CapabilityDecl.new]
    · simp [CapabilityDecl.new]
  terms key key' entry entry' hget hget' hterm := by
    rw [← pairModel_term hget, ← pairModel_term hget', hterm]
  strength := nofun

/-- The rows of another formation, with an agent of the same identifier. -/
def otherBundle : MentalModelBundle :=
  ⟨[], [⟨numberedText.idText 1, "post"⟩], [], [], []⟩

theorem pairModel_persists :
    (∀ o ∈ [("f2", otherBundle)], o.1 ≠ "f1") ∧
    ∃ db', BackendStore.save numberedText 0 "f1" pairModel .empty = (db', .ok ()) ∧
      ∃ m', BackendStore.load numberedText plainHashers 50 plainScans "f1"
        (db'.saves [("f2", otherBundle)]) = .ok m' ∧ pairModel.Same m' :=
  ⟨by decide, (mentalModel_persists_iff numberedText plainHashers 50 0 plainScans "f1" pairModel
    .empty [("f2", otherBundle)] (by decide)).2.1.mpr
      ⟨pairModel_flat, pairModel_savable, fun _ => rfl, rfl, rfl⟩⟩

/-- An agent that can post through two connectors. -/
def twoPosts : SharedMentalModel Unit Unit :=
  { SharedMentalModel.new plainHashers with
    capabilityAwareness := (HashMap.empty plainHashers.agents).insert 0
      [⟨"post", some "connector-slack", .null⟩, ⟨"post", some "connector-bluesky", .null⟩] }

theorem twoPosts_not_persisted :
    (¬ ∃ m', fromBundle numberedText plainHashers 0 (twoPosts.toBundle numberedText 0) = .ok m' ∧
      twoPosts.Same m') ∧
    ¬ ∃ db', BackendStore.save numberedText 0 "f1" twoPosts .empty = (db', .ok ()) := by
  have hget : twoPosts.capabilityAwareness.get 0 = some
      [⟨"post", some "connector-slack", .null⟩, ⟨"post", some "connector-bluesky", .null⟩] :=
    HashMap.get_insert_self
  constructor
  · rintro ⟨m', hm', hsame⟩
    obtain ⟨m₁, hm₁, hflat⟩ :=
      @fromBundle_toBundle Unit Unit _ _ numberedText plainHashers 0 0 twoPosts
    obtain rfl := Except.ok.inj (hm₁.symm.trans hm')
    have hnamed := ((hflat.mp hsame).named 0 _ hget).2 _ List.mem_cons_self
    cases hnamed.1
  · rintro ⟨db', hsave⟩
    have hsavable := ((save_ok_iff 0 "f1" twoPosts .empty db').mp hsave).1
    have hnodup := hsavable.names 0 _ hget
    exact absurd hnodup (by decide)

end Samples

end Springtale.Cooperation
