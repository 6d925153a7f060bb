import Mathlib.Data.List.Perm.Basic
import Springtale.Cooperation.MentalModel

/-! The mental model through its rows: what comes back from a bundle, and from the tables of the
SQLite backend. -/
namespace Springtale.Cooperation

open Springtale.Core Springtale.Beat Springtale.Lib

variable {γ ω : Type*} [Inhabited γ] [Inhabited ω]

def DomainEntry.content (entry : DomainEntry) : String × Real32 :=
  (entry.description, entry.confidence)

def CooperationPattern.content (p : CooperationPattern) :
    String × List Uuid × UInt32 × UInt32 :=
  (p.trigger, p.participants, p.successCount, p.failureCount)

def PatternRow.content (r : PatternRow) : String × String × UInt32 × UInt32 :=
  (r.triggerText, r.participantsJson, r.successCount, r.failureCount)

/-- Equal up to time stamps: maps at every key, lists item by item. -/
structure SharedMentalModel.Same (m m' : SharedMentalModel γ ω) : Prop where
  domain : ∀ key, (m.domainKnowledge.get key).map DomainEntry.content =
    (m'.domainKnowledge.get key).map DomainEntry.content
  capability : ∀ agent, m.capabilityAwareness.get agent = m'.capabilityAwareness.get agent
  patterns : m.cooperationPatterns.map CooperationPattern.content =
    m'.cooperationPatterns.map CooperationPattern.content
  vocabulary : ∀ term, m.sharedVocabulary.get term = m'.sharedVocabulary.get term
  conventions : m.conventions = m'.conventions
  graph : m.graph = m'.graph
  externalWorkspaces : m.externalWorkspaces = m'.externalWorkspaces

/-- The model holds nothing that its rows have no place for. -/
structure SharedMentalModel.Flat (m : SharedMentalModel γ ω) : Prop where
  named : ∀ agent caps, m.capabilityAwareness.get agent = some caps →
    caps ≠ [] ∧ ∀ cap ∈ caps, cap.connector = none ∧ cap.metadata = .null
  terms : ∀ term entry, m.sharedVocabulary.get term = some entry → entry.term = term
  graph : m.graph = default
  externalWorkspaces : m.externalWorkspaces = default

/-- The same rows, each table in an order of its own. -/
structure MentalModelBundle.Reordered (b b' : MentalModelBundle) : Prop where
  domain : b'.domain.Perm b.domain
  capability : b'.capability.Perm b.capability
  pattern : b'.pattern.Perm b.pattern
  vocabulary : b'.vocabulary.Perm b.vocabulary
  convention : b'.convention.Perm b.convention

theorem MentalModelBundle.Reordered.refl (b : MentalModelBundle) : b.Reordered b :=
  ⟨.refl _, .refl _, .refl _, .refl _, .refl _⟩

/-- The order that the model's lists have is kept. -/
structure MentalModelBundle.KeepsOrder (b b' : MentalModelBundle) : Prop where
  capability : ∀ agentId, b'.capability.filter (·.agentId = agentId) =
    b.capability.filter (·.agentId = agentId)
  pattern : b'.pattern.map PatternRow.content = b.pattern.map PatternRow.content
  convention : b'.convention = b.convention

theorem MentalModelBundle.KeepsOrder.refl (b : MentalModelBundle) : b.KeepsOrder b :=
  ⟨fun _ => rfl, rfl, rfl⟩

section Text

variable (text : RowText)

theorem RowText.idText_injective : Function.Injective text.idText := by
  intro a b h
  have ha := text.parseId_idText a
  rw [h, text.parseId_idText b] at ha
  exact (Except.ok.inj ha).symm

theorem RowText.parseAgentId_idText (id : Uuid) :
    text.parseAgentId (text.idText id) = .ok id := by
  rw [parseAgentId, text.parseId_idText]

theorem RowText.parseIds_idsJson (ids : List Uuid) :
    text.parseIds (text.idsJson ids) = .ok ids := by
  rw [parseIds, idsJson, text.fromJson_toJson]
  dsimp only
  induction ids with
  | nil => rfl
  | cons id ids ih => rw [List.map_cons, parseAgentIds, parseAgentId_idText, ih]

theorem RowText.idsJson_injective : Function.Injective text.idsJson := by
  intro a b h
  have ha := text.parseIds_idsJson a
  rw [h, text.parseIds_idsJson b] at ha
  exact (Except.ok.inj ha).symm

end Text

section Tables

variable {text : RowText}

/-- Rows by distinct keys, read into a map. -/
theorem get_foldl_rows {κ ν ρ : Type} [DecidableEq κ] {hasher : Hasher κ} (key : ρ → κ)
    (value : ρ → ν) (rows : List ρ) (hnodup : (rows.map key).Nodup) (k : κ) (v : ν) :
    (rows.foldl (fun m r => m.insert (key r) (value r)) (HashMap.empty hasher)).get k = some v ↔
      ∃ r ∈ rows, key r = k ∧ value r = v := by
  have hpairs : rows.foldl (fun m r => m.insert (key r) (value r)) (HashMap.empty hasher) =
      HashMap.collect hasher (rows.map fun r => (key r, value r)) := by
    rw [HashMap.collect, List.foldl_map]
  have hkeys : ((rows.map fun r => (key r, value r)).map (·.1)).Nodup := by
    rw [List.map_map]
    exact hnodup
  rw [hpairs, HashMap.get_collect hkeys, List.mem_map]
  simp only [Prod.mk.injEq]

/-- What is appended to an agent's list: its rows, in their order. -/
theorem loadCapabilities_spec (rows : List CapabilityRow)
    (hrows : ∀ r ∈ rows, ∃ agent, r.agentId = text.idText agent)
    (caps : HashMap Uuid (List CapabilityDecl)) :
    ∃ caps', loadCapabilities text rows caps = .ok caps' ∧ ∀ agent,
      caps'.get agent =
        if rows.filter (·.agentId = text.idText agent) = [] then caps.get agent
        else some ((caps.get agent).getD [] ++
          (rows.filter (·.agentId = text.idText agent)).map (.new ·.capability)) := by
  induction rows generalizing caps with
  | nil => exact ⟨caps, rfl, fun agent => by simp⟩
  | cons r rows ih =>
    obtain ⟨owner, howner⟩ := hrows r List.mem_cons_self
    obtain ⟨caps', hload, hget⟩ := ih (fun r' hr' => hrows r' (List.mem_cons_of_mem r hr'))
      (caps.insert owner ((caps.get owner).getD [] ++ [.new r.capability]))
    refine ⟨caps', ?_, ?_⟩
    · rw [loadCapabilities, howner, text.parseAgentId_idText]
      exact hload
    · intro agent
      rw [hget, HashMap.get_insert]
      by_cases hagent : agent = owner
      · subst hagent
        rw [List.filter_cons_of_pos (by simp [howner])]
        by_cases hnone : rows.filter (·.agentId = text.idText agent) = []
        · simp [hnone]
        · simp [hnone]
      · have hne : ¬ r.agentId = text.idText agent := by
          rw [howner]
          exact fun h => hagent (text.idText_injective h).symm
        rw [List.filter_cons_of_neg (by simpa using hne), if_neg hagent]

/-- The rows of one agent, among those of agents that are all different. -/
theorem filter_capabilityRows (pairs : List (Uuid × List CapabilityDecl))
    (hnodup : (pairs.map (·.1)).Nodup) (agent : Uuid) (caps : List CapabilityDecl)
    (hcaps : (agent, caps) ∈ pairs ∨ agent ∉ pairs.map (·.1) ∧ caps = []) :
    (pairs.flatMap fun (agent, caps) =>
        caps.map fun cap => (⟨text.idText agent, cap.name⟩ : CapabilityRow)).filter
      (·.agentId = text.idText agent) =
      caps.map fun cap => ⟨text.idText agent, cap.name⟩ := by
  induction pairs generalizing caps with
  | nil =>
    rcases hcaps with hmem | ⟨-, rfl⟩
    · cases hmem
    · rfl
  | cons pair pairs ih =>
    obtain ⟨owner, declared⟩ := pair
    rw [List.map_cons, List.nodup_cons] at hnodup
    obtain ⟨hnew, hrest⟩ := hnodup
    rw [List.flatMap_cons, List.filter_append]
    by_cases howner : owner = agent
    · subst howner
      have hnone := ih hrest [] (.inr ⟨hnew, rfl⟩)
      have hdeclared : caps = declared := by
        rcases hcaps with hmem | ⟨habsent, -⟩
        · rcases List.mem_cons.mp hmem with heq | hmem
          · exact (Prod.mk.inj heq).2
          · exact (hnew (List.mem_map.mpr ⟨(owner, caps), hmem, rfl⟩)).elim
        · exact (habsent List.mem_cons_self).elim
      rw [hnone, hdeclared, List.filter_eq_self.mpr]
      · simp
      · intro r hr
        obtain ⟨cap, -, rfl⟩ := List.mem_map.mp hr
        simp
    · have hothers : (declared.map fun cap =>
          (⟨text.idText owner, cap.name⟩ : CapabilityRow)).filter
            (·.agentId = text.idText agent) = [] := by
        rw [List.filter_eq_nil_iff]
        intro r hr
        obtain ⟨cap, -, rfl⟩ := List.mem_map.mp hr
        simpa using fun h => howner (text.idText_injective h)
      rw [hothers, List.nil_append]
      apply ih hrest
      rcases hcaps with hmem | ⟨habsent, hnil⟩
      · left
        rcases List.mem_cons.mp hmem with heq | hmem
        · exact (howner (Prod.mk.inj heq).1.symm).elim
        · exact hmem
      · exact .inr ⟨fun h => habsent (List.mem_cons_of_mem _ h), hnil⟩

theorem loadPatterns_ok (now : Nat) (rows : List PatternRow)
    (hrows : ∀ r ∈ rows, ∃ ids, r.participantsJson = text.idsJson ids) :
    ∃ patterns, loadPatterns text now rows = .ok patterns ∧
      patterns.map (fun p => (p.trigger, text.idsJson p.participants, p.successCount,
        p.failureCount)) = rows.map PatternRow.content := by
  induction rows with
  | nil => exact ⟨[], rfl, rfl⟩
  | cons r rows ih =>
    obtain ⟨ids, hids⟩ := hrows r List.mem_cons_self
    obtain ⟨patterns, hload, hcontent⟩ := ih fun r' hr' => hrows r' (List.mem_cons_of_mem r hr')
    refine ⟨⟨r.triggerText, ids, r.successCount, r.failureCount, now⟩ :: patterns, ?_, ?_⟩
    · rw [loadPatterns, hids, text.parseIds_idsJson]
      dsimp only
      rw [hload]
    · rw [List.map_cons, List.map_cons, hcontent, PatternRow.content, hids]

theorem loadConventions_ok (rows : List ConventionRow)
    (hrows : ∀ r ∈ rows, ∃ ids, r.establishedByJson = text.idsJson ids) :
    ∃ conventions, loadConventions text rows = .ok conventions ∧
      conventions.map (fun c => (⟨c.description, text.idsJson c.establishedBy, c.strength⟩ :
        ConventionRow)) = rows := by
  induction rows with
  | nil => exact ⟨[], rfl, rfl⟩
  | cons r rows ih =>
    obtain ⟨ids, hids⟩ := hrows r List.mem_cons_self
    obtain ⟨conventions, hload, hcontent⟩ := ih fun r' hr' =>
      hrows r' (List.mem_cons_of_mem r hr')
    refine ⟨⟨r.description, ids, r.strength⟩ :: conventions, ?_, ?_⟩
    · rw [loadConventions, hids, text.parseIds_idsJson]
      dsimp only
      rw [hload]
    · rw [List.map_cons, hcontent, ← hids]

/-- The vocabulary is read as the entries that the rows tell. -/
theorem loadVocabulary_eq (entries : List VocabularyEntry)
    (vocabulary : HashMap String VocabularyEntry) :
    loadVocabulary text (entries.map fun entry =>
        ⟨entry.term, entry.meaning, text.idsJson entry.establishedBy⟩) vocabulary =
      .ok (entries.foldl (fun m entry => m.insert entry.term entry) vocabulary) := by
  induction entries generalizing vocabulary with
  | nil => rfl
  | cons entry entries ih =>
    rw [List.map_cons, loadVocabulary, text.parseIds_idsJson]
    exact ih _

/-- A reordering of mapped rows is the map of a reordering. -/
theorem exists_map_of_perm {α β : Type} {f : α → β} {xs : List α} {ys : List β}
    (hperm : ys.Perm (xs.map f)) : ∃ xs' : List α, xs'.Perm xs ∧ ys = xs'.map f := by
  induction xs generalizing ys with
  | nil => exact ⟨[], .refl _, List.perm_nil.mp hperm⟩
  | cons x xs ih =>
    obtain ⟨pre, post, rfl⟩ := List.append_of_mem
      (hperm.mem_iff.mpr (List.mem_cons_self : f x ∈ f x :: xs.map f))
    have hrest : (pre ++ post).Perm (xs.map f) :=
      (List.perm_cons (f x)).mp (List.perm_middle.symm.trans hperm)
    obtain ⟨xs', hxs', hmap⟩ := ih hrest
    obtain ⟨pre', post', rfl, rfl, rfl⟩ := List.append_eq_map_iff.mp hmap
    exact ⟨pre' ++ x :: post', List.perm_middle.trans (hxs'.cons x), by simp⟩

end Tables

section RoundTrip

variable {text : RowText}

theorem capabilityRows_of (caps : HashMap Uuid (List CapabilityDecl)) (agent : Uuid) :
    (caps.iter.flatMap fun (agent, caps) =>
        caps.map fun cap => (⟨text.idText agent, cap.name⟩ : CapabilityRow)).filter
      (·.agentId = text.idText agent) =
      ((caps.get agent).getD []).map fun cap => ⟨text.idText agent, cap.name⟩ := by
  apply filter_capabilityRows _ caps.nodup_iter
  cases hget : caps.get agent with
  | some declared => exact .inl (HashMap.mem_iter_iff.mpr hget)
  | none =>
    refine .inr ⟨?_, rfl⟩
    intro hmem
    obtain ⟨⟨owner, declared⟩, hpair, rfl⟩ := List.mem_map.mp hmem
    rw [HashMap.mem_iter_iff.mp hpair] at hget
    cases hget

theorem CapabilityDecl.eq_new_iff (cap : CapabilityDecl) :
    CapabilityDecl.new cap.name = cap ↔ cap.connector = none ∧ cap.metadata = .null := by
  cases cap
  simp [CapabilityDecl.new, eq_comm]

/-- What an agent's rows in any order are read as is its list, exactly if that is a list of names
in that order. -/
theorem capability_read_iff {agent : Uuid} {declared : Option (List CapabilityDecl)}
    {rows : List CapabilityRow}
    (hperm : rows.Perm ((declared.getD []).map fun cap => ⟨text.idText agent, cap.name⟩)) :
    (declared = if rows = [] then none else some (rows.map (.new ·.capability))) ↔
      (∀ caps, declared = some caps →
        caps ≠ [] ∧ ∀ cap ∈ caps, cap.connector = none ∧ cap.metadata = .null) ∧
      rows = (declared.getD []).map fun cap => ⟨text.idText agent, cap.name⟩ := by
  cases declared with
  | none =>
    obtain rfl : rows = [] := List.perm_nil.mp hperm
    simp
  | some caps =>
    by_cases hnone : rows = []
    · subst hnone
      have hcaps : caps = [] := by simpa using List.nil_perm.mp hperm
      simp [hcaps]
    · have hcaps : caps ≠ [] := by
        rintro rfl
        exact hnone (List.perm_nil.mp hperm)
      rw [if_neg hnone, Option.some_inj]
      constructor
      · intro hread
        have hnamed : ∀ cap ∈ caps, cap.connector = none ∧ cap.metadata = .null := by
          intro cap hcap
          rw [hread] at hcap
          obtain ⟨r, -, rfl⟩ := List.mem_map.mp hcap
          exact ⟨rfl, rfl⟩
        refine ⟨?_, ?_⟩
        · rintro _ ⟨⟩
          exact ⟨hcaps, hnamed⟩
        · have howner : ∀ r ∈ rows, r.agentId = text.idText agent := by
            intro r hr
            obtain ⟨cap, -, rfl⟩ := List.mem_map.mp (hperm.mem_iff.mp hr)
            rfl
          rw [Option.getD_some, hread, List.map_map]
          symm
          refine (List.map_congr_left fun r hr => ?_).trans (List.map_id rows)
          change (⟨text.idText agent, r.capability⟩ : CapabilityRow) = r
          rw [← howner r hr]
      · rintro ⟨hnamed, hrows⟩
        have hplain := (hnamed caps rfl).2
        rw [hrows, Option.getD_some, List.map_map]
        symm
        refine (List.map_congr_left fun cap hcap => ?_).trans (List.map_id caps)
        exact (CapabilityDecl.eq_new_iff cap).mpr (hplain cap hcap)

theorem capability_same_iff (caps : HashMap Uuid (List CapabilityDecl)) (hasher : Hasher Uuid)
    {rows : List CapabilityRow}
    (hperm : rows.Perm (caps.iter.flatMap fun (agent, caps) =>
      caps.map fun cap => ⟨text.idText agent, cap.name⟩)) :
    ∃ caps', loadCapabilities text rows (.empty hasher) = .ok caps' ∧
      ((∀ agent, caps.get agent = caps'.get agent) ↔
        (∀ agent declared, caps.get agent = some declared →
          declared ≠ [] ∧ ∀ cap ∈ declared, cap.connector = none ∧ cap.metadata = .null) ∧
        ∀ agentId, rows.filter (·.agentId = agentId) =
          (caps.iter.flatMap fun (agent, caps) =>
            caps.map fun cap => (⟨text.idText agent, cap.name⟩ : CapabilityRow)).filter
              (·.agentId = agentId)) := by
  have howners : ∀ r ∈ rows, ∃ agent, r.agentId = text.idText agent := by
    intro r hr
    obtain ⟨⟨agent, declared⟩, -, hr⟩ := List.mem_flatMap.mp (hperm.mem_iff.mp hr)
    obtain ⟨cap, -, rfl⟩ := List.mem_map.mp hr
    exact ⟨agent, rfl⟩
  obtain ⟨caps', hload, hget⟩ := loadCapabilities_spec rows howners (.empty hasher)
  refine ⟨caps', hload, ?_⟩
  have hagent : ∀ agent, (caps.get agent = caps'.get agent) ↔
      (∀ declared, caps.get agent = some declared →
        declared ≠ [] ∧ ∀ cap ∈ declared, cap.connector = none ∧ cap.metadata = .null) ∧
      rows.filter (·.agentId = text.idText agent) =
        ((caps.get agent).getD []).map fun cap => ⟨text.idText agent, cap.name⟩ := by
    intro agent
    have hrows := hperm.filter (·.agentId = text.idText agent)
    rw [capabilityRows_of] at hrows
    rw [hget agent, HashMap.get_empty, Option.getD_none, List.nil_append]
    exact capability_read_iff hrows
  constructor
  · intro hsame
    refine ⟨fun agent => ((hagent agent).mp (hsame agent)).1, fun agentId => ?_⟩
    by_cases hid : ∃ agent, agentId = text.idText agent
    · obtain ⟨agent, rfl⟩ := hid
      rw [capabilityRows_of]
      exact ((hagent agent).mp (hsame agent)).2
    · -- no row has that text as its agent
      have hnone : rows.filter (·.agentId = agentId) = [] := by
        rw [List.filter_eq_nil_iff]
        intro r hr heq
        obtain ⟨agent, hr⟩ := howners r hr
        exact hid ⟨agent, (of_decide_eq_true heq).symm.trans hr⟩
      have hrows := hperm.filter (·.agentId = agentId)
      rw [hnone] at hrows ⊢
      exact (List.nil_perm.mp hrows).symm
  · rintro ⟨hnamed, hkept⟩ agent
    refine (hagent agent).mpr ⟨hnamed agent, ?_⟩
    rw [hkept, capabilityRows_of]

theorem mem_values_iff {vocabulary : HashMap String VocabularyEntry}
    (hterms : ∀ term entry, vocabulary.get term = some entry → entry.term = term)
    {entry : VocabularyEntry} :
    entry ∈ vocabulary.iter.map (·.2) ↔ vocabulary.get entry.term = some entry := by
  rw [List.mem_map]
  constructor
  · rintro ⟨⟨term, entry⟩, hpair, rfl⟩
    have hget := HashMap.mem_iter_iff.mp hpair
    rw [hterms term entry hget]
    exact hget
  · intro hget
    exact ⟨(entry.term, entry), HashMap.mem_iter_iff.mpr hget, rfl⟩

theorem terms_nodup {vocabulary : HashMap String VocabularyEntry}
    (hterms : ∀ term entry, vocabulary.get term = some entry → entry.term = term) :
    ((vocabulary.iter.map (·.2)).map (·.term)).Nodup := by
  have hkeys : (vocabulary.iter.map (·.2)).map (·.term) = vocabulary.iter.map (·.1) := by
    rw [List.map_map]
    apply List.map_congr_left
    rintro ⟨term, entry⟩ hpair
    exact hterms term entry (HashMap.mem_iter_iff.mp hpair)
  rw [hkeys]
  exact vocabulary.nodup_iter

/-- Every entry that was read stands under its own term. -/
theorem read_terms (entries : List VocabularyEntry) (vocabulary : HashMap String VocabularyEntry)
    (hterms : ∀ term entry, vocabulary.get term = some entry → entry.term = term) :
    ∀ term entry, (entries.foldl (fun m entry => m.insert entry.term entry) vocabulary).get term =
      some entry → entry.term = term := by
  induction entries generalizing vocabulary with
  | nil => exact hterms
  | cons entry entries ih =>
    apply ih
    intro term other hget
    rw [HashMap.get_insert] at hget
    by_cases hterm : term = entry.term
    · rw [if_pos hterm] at hget
      rw [hterm, Option.some.inj hget]
    · rw [if_neg hterm] at hget
      exact hterms term other hget

theorem vocabulary_same_iff (vocabulary : HashMap String VocabularyEntry) (hasher : Hasher String)
    {rows : List VocabularyRow}
    (hperm : rows.Perm (vocabulary.iter.map fun (_, entry) =>
      ⟨entry.term, entry.meaning, text.idsJson entry.establishedBy⟩)) :
    ∃ vocabulary', loadVocabulary text rows (.empty hasher) = .ok vocabulary' ∧
      ((∀ term, vocabulary.get term = vocabulary'.get term) ↔
        ∀ term entry, vocabulary.get term = some entry → entry.term = term) := by
  have hrows : (vocabulary.iter.map fun (_, entry) =>
      (⟨entry.term, entry.meaning, text.idsJson entry.establishedBy⟩ : VocabularyRow)) =
      (vocabulary.iter.map (·.2)).map fun entry =>
        ⟨entry.term, entry.meaning, text.idsJson entry.establishedBy⟩ := by
    rw [List.map_map]
    rfl
  rw [hrows] at hperm
  obtain ⟨entries, hentries, rfl⟩ := exists_map_of_perm hperm
  refine ⟨_, loadVocabulary_eq entries _, ?_⟩
  constructor
  · intro hsame term entry hget
    rw [hsame] at hget
    exact read_terms entries (.empty hasher) (fun _ _ h => nomatch h) term entry hget
  · intro hterms term
    have hnodup : (entries.map (·.term)).Nodup :=
      (hentries.map (·.term)).nodup_iff.mpr (terms_nodup hterms)
    ext entry
    refine Iff.trans ?_
      (get_foldl_rows (fun entry : VocabularyEntry => entry.term) id entries hnodup term entry).symm
    constructor
    · intro hget
      obtain rfl := hterms term entry hget
      exact ⟨entry, hentries.mem_iff.mpr ((mem_values_iff hterms).mpr hget), rfl, rfl⟩
    · rintro ⟨other, hmem, rfl, rfl⟩
      exact (mem_values_iff hterms).mp (hentries.mem_iff.mp hmem)

theorem domain_same (domain : HashMap String DomainEntry) (hasher : Hasher String)
    (now : Nat) (nowUnix : Int) {rows : List DomainRow}
    (hperm : rows.Perm (domain.iter.map fun (key, entry) =>
      ⟨key, entry.description, nowUnix, entry.confidence⟩)) (key : String) :
    (domain.get key).map DomainEntry.content =
      ((rows.foldl (fun m r => m.insert r.key (DomainEntry.mk r.description now r.confidence))
        (HashMap.empty hasher)).get key).map DomainEntry.content := by
  have hnodup : (rows.map (·.key)).Nodup := by
    refine (hperm.map (·.key)).nodup_iff.mpr ?_
    rw [List.map_map]
    exact domain.nodup_iter
  ext content
  rw [Option.map_eq_some_iff, Option.map_eq_some_iff]
  simp only [get_foldl_rows DomainRow.key
    (fun r => DomainEntry.mk r.description now r.confidence) rows hnodup]
  constructor
  · rintro ⟨entry, hget, rfl⟩
    refine ⟨⟨entry.description, now, entry.confidence⟩,
      ⟨⟨key, entry.description, nowUnix, entry.confidence⟩, ?_, rfl, rfl⟩, rfl⟩
    exact hperm.mem_iff.mpr (List.mem_map.mpr ⟨(key, entry), HashMap.mem_iter_iff.mpr hget, rfl⟩)
  · rintro ⟨_, ⟨r, hr, rfl, rfl⟩, rfl⟩
    obtain ⟨⟨key, entry⟩, hpair, rfl⟩ := List.mem_map.mp (hperm.mem_iff.mp hr)
    exact ⟨entry, HashMap.mem_iter_iff.mp hpair, rfl⟩

theorem patterns_same_iff (patterns : List CooperationPattern) (now : Nat) (nowUnix : Int)
    {rows : List PatternRow}
    (hperm : rows.Perm (patterns.map fun p =>
      ⟨p.trigger, text.idsJson p.participants, p.successCount, p.failureCount, nowUnix⟩)) :
    ∃ patterns', loadPatterns text now rows = .ok patterns' ∧
      (patterns.map CooperationPattern.content = patterns'.map CooperationPattern.content ↔
        rows.map PatternRow.content =
          (patterns.map fun p => (⟨p.trigger, text.idsJson p.participants, p.successCount,
            p.failureCount, nowUnix⟩ : PatternRow)).map PatternRow.content) := by
  have hids : ∀ r ∈ rows, ∃ ids, r.participantsJson = text.idsJson ids := by
    intro r hr
    obtain ⟨p, -, rfl⟩ := List.mem_map.mp (hperm.mem_iff.mp hr)
    exact ⟨p.participants, rfl⟩
  obtain ⟨patterns', hload, hcontent⟩ := loadPatterns_ok now rows hids
  refine ⟨patterns', hload, ?_⟩
  let asRow : String × List Uuid × UInt32 × UInt32 → String × String × UInt32 × UInt32 :=
    fun (trigger, ids, success, failure) => (trigger, text.idsJson ids, success, failure)
  have hinj : Function.Injective asRow := by
    rintro ⟨t, ids, s, f⟩ ⟨t', ids', s', f'⟩ h
    simp only [asRow, Prod.mk.injEq] at h ⊢
    exact ⟨h.1, text.idsJson_injective h.2.1, h.2.2⟩
  have hread : rows.map PatternRow.content =
      (patterns'.map CooperationPattern.content).map asRow := by
    rw [← hcontent, List.map_map]
    rfl
  have hwritten : (patterns.map fun p => (⟨p.trigger, text.idsJson p.participants,
      p.successCount, p.failureCount, nowUnix⟩ : PatternRow)).map PatternRow.content =
      (patterns.map CooperationPattern.content).map asRow := by
    rw [List.map_map, List.map_map]
    rfl
  rw [hread, hwritten, (List.map_injective_iff.mpr hinj).eq_iff]
  exact eq_comm

theorem conventions_same_iff (conventions : List Convention) {rows : List ConventionRow}
    (hperm : rows.Perm (conventions.map fun c =>
      ⟨c.description, text.idsJson c.establishedBy, c.strength⟩)) :
    ∃ conventions', loadConventions text rows = .ok conventions' ∧
      (conventions = conventions' ↔
        rows = conventions.map fun c =>
          ⟨c.description, text.idsJson c.establishedBy, c.strength⟩) := by
  have hids : ∀ r ∈ rows, ∃ ids, r.establishedByJson = text.idsJson ids := by
    intro r hr
    obtain ⟨c, -, rfl⟩ := List.mem_map.mp (hperm.mem_iff.mp hr)
    exact ⟨c.establishedBy, rfl⟩
  obtain ⟨conventions', hload, hrows⟩ := loadConventions_ok rows hids
  have hinj : Function.Injective fun c : Convention =>
      (⟨c.description, text.idsJson c.establishedBy, c.strength⟩ : ConventionRow) := by
    rintro ⟨d, ids, s⟩ ⟨d', ids', s'⟩ h
    simp only [ConventionRow.mk.injEq] at h
    rw [h.1, text.idsJson_injective h.2.1, h.2.2]
  refine ⟨conventions', hload, ?_⟩
  rw [← hrows, (List.map_injective_iff.mpr hinj).eq_iff]
  exact eq_comm

/-- The rows of a model in whatever order are always read, and the model that comes back is the
same exactly if it was flat and its lists kept their order. -/
theorem fromBundle_reordered (hashers : ModelHashers) (now : Nat) (nowUnix : Int)
    (m : SharedMentalModel γ ω) {b : MentalModelBundle}
    (hrows : (m.toBundle text nowUnix).Reordered b) :
    ∃ m', fromBundle text hashers now b = .ok m' ∧
      (m.Same m' ↔ m.Flat ∧ (m.toBundle text nowUnix).KeepsOrder b) := by
  obtain ⟨capability, hcapability, hsameCapability⟩ :=
    capability_same_iff m.capabilityAwareness hashers.agents hrows.capability
  obtain ⟨patterns, hpatterns, hsamePatterns⟩ :=
    patterns_same_iff m.cooperationPatterns now nowUnix hrows.pattern
  obtain ⟨vocabulary, hvocabulary, hsameVocabulary⟩ :=
    vocabulary_same_iff m.sharedVocabulary hashers.texts hrows.vocabulary
  obtain ⟨conventions, hconventions, hsameConventions⟩ :=
    conventions_same_iff m.conventions hrows.convention
  have hdomain := domain_same m.domainKnowledge hashers.texts now nowUnix hrows.domain
  let domain := b.domain.foldl
    (fun m r => m.insert r.key (DomainEntry.mk r.description now r.confidence))
    (HashMap.empty hashers.texts)
  refine ⟨⟨domain, capability, patterns, vocabulary, conventions, default, default⟩, ?_, ?_⟩
  · simp only [fromBundle, hcapability, hpatterns, hvocabulary, hconventions]
    rfl
  · constructor
    · intro hsame
      have hkept := hsameCapability.mp hsame.capability
      exact ⟨⟨hkept.1, hsameVocabulary.mp hsame.vocabulary, hsame.graph,
        hsame.externalWorkspaces⟩, hkept.2, hsamePatterns.mp hsame.patterns,
        hsameConventions.mp hsame.conventions⟩
    · rintro ⟨hflat, hkept⟩
      exact ⟨hdomain, hsameCapability.mpr ⟨hflat.named, hkept.capability⟩,
        hsamePatterns.mpr hkept.pattern, hsameVocabulary.mpr hflat.terms,
        hsameConventions.mpr hkept.convention, hflat.graph, hflat.externalWorkspaces⟩

/-- A bundle read back at once gives the model again exactly if the model is flat. -/
theorem fromBundle_toBundle (hashers : ModelHashers) (now : Nat) (nowUnix : Int)
    (m : SharedMentalModel γ ω) :
    ∃ m', fromBundle text hashers now (m.toBundle text nowUnix) = .ok m' ∧
      (m.Same m' ↔ m.Flat) := by
  obtain ⟨m', hload, hsame⟩ :=
    fromBundle_reordered hashers now nowUnix m (.refl (m.toBundle text nowUnix))
  refine ⟨m', hload, hsame.trans ?_⟩
  exact and_iff_left (.refl _)

end RoundTrip

end Springtale.Cooperation
