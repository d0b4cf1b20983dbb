import Emucap.Bundle.CompleteRecording
import Emucap.Live.RecordingRequest

/-!
# Admission against validation

`RequestChecks` is what the validator asks of an admitted request. The admission compares `max_events` with the
observed frames of a class, the validator with all frames: the checks pass exactly where `max_events` covers the
warmup too.
-/

namespace Emucap.Live

open Emucap.Lib Emucap.Bundle

/-! ## What a valid capability gives -/

/-- The advertised class is a registered one, and so are its filterable fields. -/
def EventRegistered (registry : EventContractRegistry) (event : RecordingEventCapability) : Prop :=
  ∃ contract, registry.validateIdentity ⟨event.id, event.contractSha256⟩ = .ok contract ∧
    ∀ field ∈ event.filterableFields, RecordingCapability.fieldRegistered contract field = true

namespace RecordingCapability

variable {cap : RecordingCapability} {digests : CapabilityDigests} {registry : EventContractRegistry}

theorem validateFilterFields_eq_ok {event : RecordingEventCapability} {contract : EventContract}
    {fields : List RecordingEventFilterField} {seen : List String} {u : Unit}
    (h : validateFilterFields event contract fields seen = .ok u) :
    ∀ field ∈ fields, fieldRegistered contract field = true := by
  induction fields generalizing seen with
  | nil => exact fun _ hfield => (nomatch hfield)
  | cons head rest ih =>
    obtain ⟨⟨-, hhead⟩, h⟩ := require_bind_eq_ok.mp h
    intro field hfield
    rcases List.mem_cons.mp hfield with rfl | hrest
    · exact hhead
    · exact ih h field hrest

theorem validateEventClasses_eq_ok {events : List RecordingEventCapability} {seen : List String} {u : Unit}
    (h : validateEventClasses registry events seen = .ok u) : ∀ event ∈ events, EventRegistered registry event := by
  induction events generalizing seen with
  | nil => exact fun _ hevent => (nomatch hevent)
  | cons head rest ih =>
    obtain ⟨-, h⟩ := require_bind_eq_ok.mp h
    obtain ⟨contract, hcontract, h⟩ := bind_eq_ok.mp h
    obtain ⟨-, h⟩ := require_bind_eq_ok.mp h
    obtain ⟨⟨⟩, hfields, h⟩ := bind_eq_ok.mp h
    intro event hevent
    rcases List.mem_cons.mp hevent with rfl | hrest
    · exact ⟨contract, mapError_eq_ok.mp hcontract, validateFilterFields_eq_ok hfields⟩
    · exact ih h event hrest

structure Validated (cap : RecordingCapability) (registry : EventContractRegistry) : Prop where
  events : ∀ event ∈ cap.eventClasses, EventRegistered registry event
  limits : LimitsValid cap.limits

theorem validate_eq_ok {u : Unit} (h : cap.validate digests registry = .ok u) : cap.Validated registry := by
  unfold validate at h
  obtain ⟨⟨⟩, -, h⟩ := bind_eq_ok.mp h
  obtain ⟨⟨⟩, -, h⟩ := bind_eq_ok.mp h
  obtain ⟨-, h⟩ := require_bind_eq_ok.mp h
  obtain ⟨-, h⟩ := require_bind_eq_ok.mp h
  obtain ⟨-, h⟩ := require_bind_eq_ok.mp h
  obtain ⟨⟨⟩, hevents, h⟩ := bind_eq_ok.mp h
  obtain ⟨-, h⟩ := require_bind_eq_ok.mp h
  obtain ⟨⟨⟩, -, h⟩ := bind_eq_ok.mp h
  obtain ⟨-, h⟩ := require_bind_eq_ok.mp h
  obtain ⟨⟨⟩, -, h⟩ := bind_eq_ok.mp h
  obtain ⟨-, h⟩ := require_bind_eq_ok.mp h
  obtain ⟨⟨⟩, -, h⟩ := bind_eq_ok.mp h
  obtain ⟨⟨⟩, -, h⟩ := bind_eq_ok.mp h
  obtain ⟨⟨⟩, -, h⟩ := bind_eq_ok.mp h
  obtain ⟨⟨⟩, -, h⟩ := bind_eq_ok.mp h
  obtain ⟨⟨⟩, -, h⟩ := bind_eq_ok.mp h
  exact ⟨validateEventClasses_eq_ok hevents, validateRecordingLimits_eq_ok.mp h⟩

/-- The resolved identities are advertised, and no id occurs twice. -/
structure Resolved (cap : RecordingCapability) (identities : List EventClassIdentity) (seen : List String) :
    Prop where
  nodup : (identities.map EventClassIdentity.id).Nodup
  fresh : ∀ identity ∈ identities, identity.id ∉ seen
  advertised : ∀ identity ∈ identities, ∃ event ∈ cap.eventClasses,
    cap.eventClasses.find? (fun e => e.id == identity.id) = some event ∧
      identity = ⟨event.id, event.contractSha256⟩

theorem resolveIdentities_eq_ok {requested : List String} {seen : List String}
    {identities : List EventClassIdentity} (h : cap.resolveIdentities requested seen = .ok identities) :
    cap.Resolved identities seen := by
  induction requested generalizing seen identities with
  | nil =>
    obtain rfl := Except.ok.inj h
    exact ⟨List.nodup_nil, fun _ hmem => (nomatch hmem), fun _ hmem => (nomatch hmem)⟩
  | cons id rest ih =>
    obtain ⟨hseen, h⟩ := require_bind_eq_ok.mp h
    obtain ⟨event, hfind, h⟩ := orError_bind_eq_ok.mp h
    obtain ⟨others, hrest, h⟩ := bind_eq_ok.mp h
    obtain rfl := Except.ok.inj h
    have hid : event.id = id := by simpa using List.find?_some hfind
    have hothers := ih hrest
    refine ⟨List.nodup_cons.mpr ⟨fun hmem => ?_, hothers.nodup⟩, fun identity hmem => ?_, fun identity hmem => ?_⟩
    · obtain ⟨identity, hidentity, heq⟩ := List.mem_map.mp hmem
      refine hothers.fresh identity hidentity ?_
      rw [heq, hid]
      exact List.mem_cons_self
    · rcases List.mem_cons.mp hmem with rfl | hmem
      · rw [hid]
        exact hseen
      · exact fun hin => hothers.fresh identity hmem (List.mem_cons_of_mem _ hin)
    · rcases List.mem_cons.mp hmem with rfl | hmem
      · refine ⟨event, List.mem_of_find?_eq_some hfind, ?_, rfl⟩
        rw [hid]
        exact hfind
      · exact hothers.advertised identity hmem

end RecordingCapability

/-! ## Limits -/

theorem narrowLimit_eq_ok {name : String} {effective result : ℕ} {requested : Option ℕ}
    (h : narrowLimit name effective requested = .ok result) :
    result ≤ effective ∧ (requested ≠ none → result ≠ 0) ∧ result = requested.getD effective := by
  cases requested with
  | none =>
    obtain rfl := Except.ok.inj h
    exact ⟨Nat.le_refl _, fun hne => absurd rfl hne, rfl⟩
  | some n =>
    obtain ⟨⟨hpos, hle⟩, h⟩ := require_bind_eq_ok.mp h
    obtain rfl := Except.ok.inj h
    exact ⟨hle, fun _ => hpos, rfl⟩

section limits

variable {cap : RecordingCapability} {request : RecordWindowRequest} {totalFrames : ℕ}
  {eventClasses : List EventClassIdentity} {arming : List EventClassArming} {limits : RecordingLimits}

/-- What the effective limits are. -/
structure Narrowed (cap : RecordingCapability) (request : RecordWindowRequest) (totalFrames : ℕ)
    (limits : RecordingLimits) : Prop where
  frames : limits.maxFrames = totalFrames
  events : limits.maxEvents = request.requested.maxEvents.getD cap.limits.maxEvents
  eventsLe : limits.maxEvents ≤ cap.limits.maxEvents
  bytesLe : limits.maxBytes ≤ cap.limits.maxBytes
  line : limits.maxLineBytes = cap.limits.maxLineBytes
  lineLe : limits.maxLineBytes ≤ limits.maxBytes
  hostLe : limits.maxHostMs ≤ cap.limits.maxHostMs
  interval : limits.progressIntervalMs = cap.limits.progressIntervalMs
  intervalLt : limits.progressIntervalMs < limits.maxHostMs

theorem effectiveLimits_eq_ok (h : effectiveLimits cap request eventClasses arming totalFrames = .ok limits) :
    Narrowed cap request totalFrames limits := by
  unfold effectiveLimits narrowLimits at h
  obtain ⟨narrowed, hnarrowed, h⟩ := bind_eq_ok.mp h
  obtain ⟨required, -, h⟩ := orError_bind_eq_ok.mp h
  obtain ⟨⟨-, hline⟩, h⟩ := require_bind_eq_ok.mp h
  obtain ⟨hinterval, h⟩ := require_bind_eq_ok.mp h
  obtain rfl := Except.ok.inj h
  obtain ⟨maxEvents, hevents, hnarrowed⟩ := bind_eq_ok.mp hnarrowed
  obtain ⟨maxBytes, hbytes, hnarrowed⟩ := bind_eq_ok.mp hnarrowed
  obtain ⟨maxHostMs, hhost, hnarrowed⟩ := bind_eq_ok.mp hnarrowed
  obtain rfl := Except.ok.inj hnarrowed
  obtain ⟨heventsLe, -, heventsEq⟩ := narrowLimit_eq_ok hevents
  have hhostLe : maxHostMs ≤ cap.limits.maxHostMs := by
    refine (narrowLimit_eq_ok hhost).1.trans ?_
    split_ifs
    · exact Nat.min_le_right _ _
    · exact Nat.le_refl _
  exact ⟨rfl, heventsEq, heventsLe, (narrowLimit_eq_ok hbytes).1, rfl, hline, hhostLe, rfl, hinterval⟩

theorem Narrowed.limitsValid_iff (h : Narrowed cap request totalFrames limits) (hcap : LimitsValid cap.limits)
    (hpos : totalFrames ≠ 0) (htotal : totalFrames ≤ cap.limits.maxFrames) :
    LimitsValid limits ↔ ∀ n, request.requested.maxEvents = some n → totalFrames ≤ n := by
  constructor
  · intro hvalid n hn
    have hevents := h.events
    rw [hn, Option.getD_some] at hevents
    rw [← hevents, ← h.frames]
    exact hvalid.eventsFrames
  · intro hcover
    have hevents : totalFrames ≤ limits.maxEvents := by
      rw [h.events]
      rcases hn : request.requested.maxEvents with _ | n
      · exact htotal.trans hcap.eventsFrames
      · exact hcover n hn
    have hline := hcap.linePos
    have hlineBytes := h.lineLe
    have hlineEq := h.line
    have hinterval := hcap.intervalPos
    have hintervalEq := h.interval
    have hintervalLt := h.intervalLt
    exact {
      framesPos := h.frames ▸ hpos
      frames := h.frames ▸ htotal.trans hcap.frames
      eventsFrames := h.frames ▸ hevents
      events := h.eventsLe.trans hcap.events
      bytesPos := by omega
      bytes := h.bytesLe.trans hcap.bytes
      linePos := h.line ▸ hcap.linePos
      line := h.line ▸ hcap.line
      lineBytes := h.lineLe
      hostPos := by omega
      host := h.hostLe.trans hcap.host
      intervalPos := h.interval ▸ hcap.intervalPos
      interval := h.intervalLt }

end limits

/-! ## Filters -/

/-- A filter that passes the checks of the validator. -/
structure FilterValid (selected : List (String × EventContract)) (filter : EventClassFilter) : Prop where
  nonempty : filter.terms ≠ []
  length : filter.terms.length ≤ maxEventFilterTerms
  nodup : (filter.terms.map EventFilterTerm.path).Nodup
  terms : ∃ contract, OrdMap.find? filter.eventClass selected = some contract ∧
    ∀ term ∈ filter.terms, termValid contract term = true

theorem checkTerms_ok {eventClass : String} {contract : EventContract} {terms : List EventFilterTerm}
    {seen : List String} (hvalid : ∀ term ∈ terms, termValid contract term = true)
    (hnodup : (terms.map EventFilterTerm.path).Nodup) (hfresh : ∀ term ∈ terms, term.path ∉ seen) :
    checkTerms eventClass contract terms seen = .ok () := by
  induction terms generalizing seen with
  | nil => rfl
  | cons term rest ih =>
    obtain ⟨hterm, hrest⟩ := List.nodup_cons.mp hnodup
    refine require_bind_eq_ok.mpr ⟨hfresh term List.mem_cons_self, ?_⟩
    refine require_bind_eq_ok.mpr ⟨hvalid term List.mem_cons_self, ?_⟩
    refine ih (fun t ht => hvalid t (List.mem_cons_of_mem _ ht)) hrest fun t ht hin => ?_
    rcases List.mem_cons.mp hin with heq | hin
    · exact hterm (List.mem_map.mpr ⟨t, ht, heq⟩)
    · exact hfresh t (List.mem_cons_of_mem _ ht) hin

theorem checkFilters_ok {selected : List (String × EventContract)} {filters : List EventClassFilter}
    {byClass : List (String × EventClassFilter)} (hvalid : ∀ filter ∈ filters, FilterValid selected filter)
    (hnodup : (filters.map EventClassFilter.eventClass).Nodup)
    (hfresh : ∀ filter ∈ filters, OrdMap.find? filter.eventClass byClass = none) :
    ∃ byClass', checkFilters selected filters byClass = .ok byClass' := by
  induction filters generalizing byClass with
  | nil => exact ⟨byClass, rfl⟩
  | cons filter rest ih =>
    obtain ⟨hfilter, hrest⟩ := List.nodup_cons.mp hnodup
    have hhead := hvalid filter List.mem_cons_self
    obtain ⟨contract, hfind, hterms⟩ := hhead.terms
    have hnext : ∀ f ∈ rest, OrdMap.find? f.eventClass (OrdMap.insert filter.eventClass filter byClass) = none := by
      intro f hf
      rw [OrdMap.find?_insert_ne]
      · exact hfresh f (List.mem_cons_of_mem _ hf)
      · intro heq
        exact hfilter (List.mem_map.mpr ⟨f, hf, heq⟩)
    obtain ⟨byClass', hok⟩ := ih (fun f hf => hvalid f (List.mem_cons_of_mem _ hf)) hrest hnext
    refine ⟨byClass', orError_bind_eq_ok.mpr ⟨contract, hfind, ?_⟩⟩
    refine require_bind_eq_ok.mpr ⟨⟨hhead.nonempty, hhead.length⟩, ?_⟩
    refine bind_eq_ok.mpr ⟨(), checkTerms_ok hterms hhead.nodup fun _ _ hin => (nomatch hin), ?_⟩
    refine require_bind_eq_ok.mpr ⟨?_, hok⟩
    rw [hfresh filter List.mem_cons_self]
    rfl

theorem termValid_of_requested {contract : EventContract} {fields : List RecordingEventFilterField}
    {field : RecordingEventFilterField} {path : String} {start length last : ℕ}
    (hregistered : ∀ field ∈ fields, RecordingCapability.fieldRegistered contract field = true)
    (hfind : fields.find? (fun field => field.path == path && field.kind == .u64Range) = some field)
    (hlast : checkedAdd start length = some last)
    (hrange : length ≠ 0 ∧ field.min ≤ start ∧ last - 1 ≤ field.max) :
    termValid contract (.u64Range path start length) = true := by
  have hfield := hregistered field (List.mem_of_find?_eq_some hfind)
  have hpath : field.path = path := by
    have hmatch := List.find?_some hfind
    simp only [Bool.and_eq_true, beq_iff_eq] at hmatch
    exact hmatch.1
  unfold RecordingCapability.fieldRegistered at hfield
  obtain ⟨registered, hregisteredFind, hbounds⟩ := (Option.any_eq_true _ _).mp hfield
  simp only [Bool.and_eq_true, beq_iff_eq] at hbounds
  obtain ⟨⟨⟨htype, -⟩, hmin⟩, hmax⟩ := hbounds
  unfold termValid
  refine (Option.any_eq_true _ _).mpr ⟨registered, hpath ▸ hregisteredFind, ?_⟩
  simp only [Bool.and_eq_true, beq_iff_eq, decide_eq_true_eq]
  refine ⟨⟨⟨htype, by omega⟩, hmin ▸ hrange.2.1⟩, ?_⟩
  rw [hlast, Option.any_some, decide_eq_true_eq, ← hmax]
  exact hrange.2.2

theorem checkRequestedTerms_eq_ok {eventClass : String} {event : RecordingEventCapability}
    {contract : EventContract} {terms : List EventFilterTerm} {seen : List String} {u : Unit}
    (hregistered : ∀ field ∈ event.filterableFields, RecordingCapability.fieldRegistered contract field = true)
    (h : checkRequestedTerms eventClass event terms seen = .ok u) :
    (∀ term ∈ terms, termValid contract term = true) ∧ (terms.map EventFilterTerm.path).Nodup ∧
      ∀ term ∈ terms, term.path ∉ seen := by
  induction terms generalizing seen with
  | nil => exact ⟨fun _ hmem => (nomatch hmem), List.nodup_nil, fun _ hmem => (nomatch hmem)⟩
  | cons term rest ih =>
    obtain ⟨path, start, length⟩ := term
    obtain ⟨hseen, h⟩ := require_bind_eq_ok.mp h
    obtain ⟨field, hfind, h⟩ := orError_bind_eq_ok.mp h
    obtain ⟨last, hlast, h⟩ := orError_bind_eq_ok.mp h
    obtain ⟨hrange, h⟩ := require_bind_eq_ok.mp h
    obtain ⟨hvalid, hnodup, hfresh⟩ := ih h
    refine ⟨fun t ht => ?_, List.nodup_cons.mpr ⟨fun hin => ?_, hnodup⟩, fun t ht => ?_⟩
    · rcases List.mem_cons.mp ht with rfl | ht
      · exact termValid_of_requested hregistered hfind hlast hrange
      · exact hvalid t ht
    · obtain ⟨t, ht, heq⟩ := List.mem_map.mp hin
      exact hfresh t ht (heq ▸ List.mem_cons_self)
    · rcases List.mem_cons.mp ht with rfl | ht
      · exact hseen
      · exact fun hin => hfresh t ht (List.mem_cons_of_mem _ hin)

section filters

variable {cap : RecordingCapability} {registry : EventContractRegistry} {identities : List EventClassIdentity}
  {selected : List (String × EventContract)}

theorem registered_of_selected (hcap : cap.Validated registry) (hselects : Selects registry identities selected)
    (hresolved : cap.Resolved identities []) {id : String} (hid : id ∈ identities.map EventClassIdentity.id)
    {event : RecordingEventCapability} (hfind : cap.eventClasses.find? (fun e => e.id == id) = some event) :
    ∃ contract, OrdMap.find? id selected = some contract ∧
      ∀ field ∈ event.filterableFields, RecordingCapability.fieldRegistered contract field = true := by
  obtain ⟨identity, hmem, rfl⟩ := List.mem_map.mp hid
  obtain ⟨contract, hcontract, hvalid⟩ := hselects.listed identity hmem
  obtain ⟨event', hevent', hfind', hidentity⟩ := hresolved.advertised identity hmem
  obtain rfl := Option.some.inj (hfind.symm.trans hfind')
  obtain ⟨contract', hvalid', hfields⟩ := hcap.events event hevent'
  rw [← hidentity, hvalid] at hvalid'
  obtain rfl := Except.ok.inj hvalid'
  exact ⟨contract, hcontract, hfields⟩

theorem checkRequestedFilters_eq_ok (hcap : cap.Validated registry) (hselects : Selects registry identities selected)
    (hresolved : cap.Resolved identities []) {requested filters : List EventClassFilter} {seen : List String}
    (h : checkRequestedFilters cap identities requested seen = .ok filters) :
    (∀ filter ∈ filters, FilterValid selected filter) ∧
      (filters.map EventClassFilter.eventClass).Nodup ∧ ∀ filter ∈ filters, filter.eventClass ∉ seen := by
  induction requested generalizing seen filters with
  | nil =>
    obtain rfl := Except.ok.inj h
    exact ⟨fun _ hmem => (nomatch hmem), List.nodup_nil, fun _ hmem => (nomatch hmem)⟩
  | cons filter rest ih =>
    obtain ⟨hseen, h⟩ := require_bind_eq_ok.mp h
    obtain ⟨hselected, h⟩ := require_bind_eq_ok.mp h
    obtain ⟨⟨hnonempty, hlength⟩, h⟩ := require_bind_eq_ok.mp h
    obtain ⟨event, hfind, h⟩ := orError_bind_eq_ok.mp h
    obtain ⟨⟨⟩, hterms, h⟩ := bind_eq_ok.mp h
    obtain ⟨others, hrest, h⟩ := bind_eq_ok.mp h
    obtain rfl := Except.ok.inj h
    obtain ⟨contract, hcontract, hfields⟩ := registered_of_selected hcap hselects hresolved hselected hfind
    obtain ⟨hvalid, hnodup, -⟩ := checkRequestedTerms_eq_ok hfields hterms
    obtain ⟨hothers, hothersNodup, hothersFresh⟩ := ih hrest
    -- Sorting the terms keeps them.
    have hperm := List.mergeSort_perm filter.terms (fun a b => a.path ≤ b.path)
    have hhead : FilterValid selected ⟨filter.eventClass, filter.terms.mergeSort (fun a b => a.path ≤ b.path)⟩ := by
      refine ⟨fun hnil => ?_, hperm.length_eq ▸ hlength, (hperm.map _).nodup_iff.mpr hnodup,
        contract, hcontract, fun t ht => hvalid t (hperm.mem_iff.mp ht)⟩
      have hsorted : filter.terms.mergeSort (fun a b => a.path ≤ b.path) = [] := hnil
      rw [hsorted] at hperm
      exact hnonempty hperm.symm.eq_nil
    refine ⟨fun f hf => ?_, List.nodup_cons.mpr ⟨fun hin => ?_, hothersNodup⟩, fun f hf => ?_⟩
    · rcases List.mem_cons.mp hf with rfl | hf
      · exact hhead
      · exact hothers f hf
    · obtain ⟨f, hf, heq⟩ := List.mem_map.mp hin
      exact hothersFresh f hf (heq ▸ List.mem_cons_self)
    · rcases List.mem_cons.mp hf with rfl | hf
      · exact hseen
      · exact fun hin => hothersFresh f hf (List.mem_cons_of_mem _ hin)

theorem validateEventFilters_checks (hcap : cap.Validated registry) (hselects : Selects registry identities selected)
    (hresolved : cap.Resolved identities []) {requested filters : List EventClassFilter}
    (h : validateEventFilters cap identities requested = .ok filters) :
    ∃ byClass, checkFilters selected filters [] = .ok byClass := by
  obtain ⟨unsorted, hunsorted, h⟩ := bind_eq_ok.mp h
  obtain rfl := Except.ok.inj h
  obtain ⟨hvalid, hnodup, -⟩ := checkRequestedFilters_eq_ok hcap hselects hresolved hunsorted
  have hperm := List.mergeSort_perm unsorted (fun a b => a.eventClass ≤ b.eventClass)
  exact checkFilters_ok (fun f hf => hvalid f (hperm.mem_iff.mp hf)) ((hperm.map _).nodup_iff.mpr hnodup)
    fun _ _ => rfl

theorem selectClasses_ok (hvalid : ∀ identity ∈ identities, ∃ c, registry.validateIdentity identity = .ok c)
    (start : List (String × EventContract)) : ∃ result, selectClasses registry start identities = .ok result := by
  induction identities generalizing start with
  | nil => exact ⟨start, rfl⟩
  | cons identity rest ih =>
    obtain ⟨contract, hcontract⟩ := hvalid identity List.mem_cons_self
    obtain ⟨result, hresult⟩ := ih (fun i hi => hvalid i (List.mem_cons_of_mem _ hi))
      (OrdMap.insert identity.id contract start)
    exact ⟨result, bind_eq_ok.mpr ⟨contract, mapError_eq_ok.mpr hcontract, hresult⟩⟩

end filters

/-! ## The request-only checks of the validator -/

/-- What the validation of a recording asks of its request alone. -/
structure RequestChecks (registry : EventContractRegistry) (request : RecordingRequest) : Prop where
  limits : validateRecordingLimits request.limits = .ok ()
  frames : 1 ≤ request.frames ∧ request.warmupFrames + request.frames ≤ request.limits.maxFrames
  unique : request.requestedIds.Nodup
  identities : RecordingValidationInput.checkIdentities registry request.eventClasses = .ok ()
  armingEmpty : request.eventArming = [] ↔ request.warmupFrames = 0 ∧ request.startOn = none
  armingCovers : request.eventArming ≠ [] →
    (request.eventArming.map EventClassArming.id).Perm request.requestedIds
  stream : ∃ selected byClass, selectClasses registry [] request.eventClasses = .ok selected ∧
    checkFilters selected request.eventFilters [] = .ok byClass ∧ checkStop selected request.stopOn = .ok ()

theorem checkIdentities_ok {registry : EventContractRegistry} {identities : List EventClassIdentity}
    (hvalid : ∀ identity ∈ identities, ∃ c, registry.validateIdentity identity = .ok c) :
    RecordingValidationInput.checkIdentities registry identities = .ok () := by
  induction identities with
  | nil => rfl
  | cons identity rest ih =>
    obtain ⟨contract, hcontract⟩ := hvalid identity List.mem_cons_self
    exact bind_eq_ok.mpr ⟨contract, mapError_eq_ok.mpr hcontract,
      ih fun i hi => hvalid i (List.mem_cons_of_mem _ hi)⟩

section admission

variable {cap : RecordingCapability} {registry : EventContractRegistry} {request : RecordWindowRequest}
  {identities : List EventClassIdentity}

theorem resolveEventArming_eq_ok {arming : List EventClassArming}
    (h : resolveEventArming cap request identities = .ok arming) :
    (request.warmupFrames = 0 ∧ request.startOn = none ∧ arming = []) ∨
      (¬ (request.warmupFrames = 0 ∧ request.startOn = none) ∧
        arming.map EventClassArming.id = identities.map EventClassIdentity.id) := by
  unfold resolveEventArming at h
  split_ifs at h with hplain
  · obtain ⟨-, h⟩ := require_bind_eq_ok.mp h
    obtain rfl := Except.ok.inj h
    exact .inl ⟨hplain.1, hplain.2, rfl⟩
  · obtain ⟨-, h⟩ := require_bind_eq_ok.mp h
    obtain ⟨warmup, -, h⟩ := orError_bind_eq_ok.mp h
    obtain ⟨⟨⟩, -, h⟩ := bind_eq_ok.mp h
    obtain rfl := Except.ok.inj h
    refine .inr ⟨hplain, ?_⟩
    rw [List.map_map]
    rfl

theorem validateStopRequest_checks {selected : List (String × EventContract)}
    (hselects : Selects registry identities selected) {u : Unit}
    (h : validateStopRequest cap request identities = .ok u) : checkStop selected request.stopOn = .ok () := by
  unfold validateStopRequest at h
  rcases hstop : request.stopOn with _ | stop
  · rfl
  · rw [hstop] at h
    obtain ⟨hpos, h⟩ := require_bind_eq_ok.mp h
    obtain ⟨event, -, h⟩ := orError_bind_eq_ok.mp h
    obtain ⟨⟨-, hselected⟩, -⟩ := require_bind_eq_ok.mp h
    obtain ⟨identity, hmem, hid⟩ := List.mem_map.mp hselected
    obtain ⟨contract, hfind, -⟩ := hselects.listed identity hmem
    refine require_eq_ok.mpr ⟨hpos, ?_⟩
    rw [← hid, hfind]
    rfl

/-- What the admission leaves of a request. -/
structure Admission (cap : RecordingCapability) (request : RecordWindowRequest) (result : RecordingRequest) :
    Prop where
  frames : result.frames = request.frames ∧ result.frames ≠ 0
  warmup : result.warmupFrames = request.warmupFrames
  total : request.warmupFrames + request.frames ≤ cap.limits.maxFrames
  resolved : cap.Resolved result.eventClasses []
  filters : validateEventFilters cap result.eventClasses request.eventFilters = .ok result.eventFilters
  arming : resolveEventArming cap request result.eventClasses = .ok result.eventArming
  boundary : "frame_boundary" ∈ result.requestedIds
  stop : validateStopRequest cap request result.eventClasses = .ok ()
  stopOn : result.stopOn = request.stopOn
  startOn : result.startOn = request.startOn
  narrowed : Narrowed cap request (request.warmupFrames + request.frames) result.limits

theorem effectiveRequest_eq_ok
    {acquireMovie : FsPath → ℕ → RecordingInputMovieCapability → Except RecordingInputError AcquiredRecordingMovie}
    {methods : List String} {regions : List MemoryRegion} {state : Option AcquiredRecordingState}
    {effective : EffectiveRequest}
    (h : effectiveRequest cap request acquireMovie methods regions state = .ok effective) :
    Admission cap request effective.request := by
  unfold effectiveRequest at h
  obtain ⟨total, htotal, h⟩ := orError_bind_eq_ok.mp h
  obtain ⟨⟨hframes, hmax⟩, h⟩ := require_bind_eq_ok.mp h
  obtain ⟨-, h⟩ := require_bind_eq_ok.mp h
  obtain ⟨⟨⟩, -, h⟩ := bind_eq_ok.mp h
  obtain ⟨⟨⟩, -, h⟩ := bind_eq_ok.mp h
  obtain ⟨acquired, -, h⟩ := bind_eq_ok.mp h
  obtain ⟨eventClasses, hclasses, h⟩ := bind_eq_ok.mp h
  obtain ⟨eventFilters, hfilters, h⟩ := bind_eq_ok.mp h
  obtain ⟨⟨⟩, -, h⟩ := bind_eq_ok.mp h
  obtain ⟨⟨⟩, -, h⟩ := bind_eq_ok.mp h
  obtain ⟨eventArming, harming, h⟩ := bind_eq_ok.mp h
  obtain ⟨⟨⟩, -, h⟩ := bind_eq_ok.mp h
  obtain ⟨terminalState, -, h⟩ := bind_eq_ok.mp h
  obtain ⟨hboundary, h⟩ := require_bind_eq_ok.mp h
  obtain ⟨⟨⟩, hstop, h⟩ := bind_eq_ok.mp h
  obtain ⟨limits, hlimits, h⟩ := bind_eq_ok.mp h
  obtain ⟨movie, -, h⟩ := bind_eq_ok.mp h
  obtain rfl := Except.ok.inj h
  obtain ⟨-, rfl⟩ := checkedAdd_eq_some.mp htotal
  exact {
    frames := ⟨rfl, hframes⟩
    warmup := rfl
    total := hmax
    resolved := RecordingCapability.resolveIdentities_eq_ok (mapError_eq_ok.mp hclasses)
    filters := hfilters
    arming := harming
    boundary := hboundary
    stop := hstop
    stopOn := rfl
    startOn := rfl
    narrowed := effectiveLimits_eq_ok hlimits }

theorem Admission.checks {result : RecordingRequest} (h : Admission cap request result)
    (hcap : cap.Validated registry) (hlimits : LimitsValid result.limits) : RequestChecks registry result := by
  have hvalid : ∀ identity ∈ result.eventClasses, ∃ c, registry.validateIdentity identity = .ok c := by
    intro identity hmem
    obtain ⟨event, hevent, -, hidentity⟩ := h.resolved.advertised identity hmem
    obtain ⟨contract, hcontract, -⟩ := hcap.events event hevent
    exact ⟨contract, hidentity ▸ hcontract⟩
  obtain ⟨selected, hselected⟩ := selectClasses_ok hvalid []
  have hselects : Selects registry result.eventClasses selected := by
    simpa using selectClasses_eq_ok Selects.nil hselected
  obtain ⟨byClass, hfilters⟩ := validateEventFilters_checks hcap hselects h.resolved h.filters
  have hstop := validateStopRequest_checks hselects h.stop
  have hne : result.eventClasses ≠ [] := by
    intro hnil
    have hboundary := h.boundary
    rw [RecordingRequest.requestedIds, hnil] at hboundary
    cases hboundary
  have hframes := h.frames
  refine ⟨validateRecordingLimits_eq_ok.mpr hlimits, ⟨by omega, ?_⟩, h.resolved.nodup, checkIdentities_ok hvalid,
    ?_, ?_, selected, byClass, hselected, hfilters, h.stopOn ▸ hstop⟩
  · rw [h.warmup, hframes.1, h.narrowed.frames]
  · rw [h.warmup, h.startOn]
    rcases resolveEventArming_eq_ok h.arming with ⟨hwarmup, hstart, hnil⟩ | ⟨hstaged, hids⟩
    · exact ⟨fun _ => ⟨hwarmup, hstart⟩, fun _ => hnil⟩
    · refine ⟨fun hnil => absurd ?_ hne, fun hplain => absurd hplain hstaged⟩
      rw [hnil, List.map_nil] at hids
      exact List.map_eq_nil_iff.mp hids.symm
  · intro harmed
    rcases resolveEventArming_eq_ok h.arming with ⟨-, -, hnil⟩ | ⟨-, hids⟩
    · exact absurd hnil harmed
    · rw [hids]
      exact List.Perm.refl _

end admission

/-- Admission agrees with validation exactly where the requested `max_events` is absent or covers the warmup
frames as well: for every valid capability and every request that is admitted, the resulting request passes the
request-only checks of the validator if and only if that holds. -/
theorem effective_request_checks_iff {cap : RecordingCapability} {digests : CapabilityDigests}
    {registry : EventContractRegistry} {request : RecordWindowRequest}
    {acquireMovie : FsPath → ℕ → RecordingInputMovieCapability → Except RecordingInputError AcquiredRecordingMovie}
    {methods : List String} {regions : List MemoryRegion} {state : Option AcquiredRecordingState}
    {effective : EffectiveRequest} (hcap : cap.validate digests registry = .ok ())
    (h : effectiveRequest cap request acquireMovie methods regions state = .ok effective) :
    RequestChecks registry effective.request ↔
      ∀ maxEvents, request.requested.maxEvents = some maxEvents →
        request.warmupFrames + request.frames ≤ maxEvents := by
  have hvalidated := RecordingCapability.validate_eq_ok hcap
  have hadmission := effectiveRequest_eq_ok h
  have hpos : request.warmupFrames + request.frames ≠ 0 := by
    have hframes := hadmission.frames
    omega
  have hlimits := hadmission.narrowed.limitsValid_iff hvalidated.limits hpos hadmission.total
  constructor
  · intro hchecks
    exact hlimits.mp (validateRecordingLimits_eq_ok.mp hchecks.limits)
  · intro hcover
    exact hadmission.checks hvalidated (hlimits.mpr hcover)

/-! ## A warmup that the limits leave out -/

def warmupCapability : RecordingCapability where
  revision := "8df494b27324addc6c185e314d7c152beec01c7e986542b8c1fac6d39913c119"
  origins := [.nextFrameBoundary]
  units := [.frames]
  defaultEventClasses := ["frame_boundary"]
  eventClasses := [⟨"frame_boundary", frameBoundaryContract.contractSha256, ["frame"], true, false, false, []⟩]
  eventOrder := none
  classAccounting := true
  inputMovie := none
  stateLoad := none
  initialSnapshots := none
  terminalSnapshots := none
  terminalState := none
  warmup := some ⟨600, ["frame_boundary"], [⟨"frame_boundary", [.transaction, .observation]⟩]⟩
  repeatability := none
  limits := ⟨600, 20000, 16777216, 4096, 120000, 250⟩

/-- The revision is the digest of the JSON of `warmupCapability`. -/
def warmupDigests : CapabilityDigests where
  computedRevision := fun _ => "8df494b27324addc6c185e314d7c152beec01c7e986542b8c1fac6d39913c119"
  terminalStateContract := fun _ => ""

/-- One warmup frame and one observed frame, with the boundaries armed for the observation. -/
def observedBoundary (maxEvents : Option ℕ) : RecordWindowRequest where
  frames := 1
  warmupFrames := 1
  eventClasses := []
  eventFilters := []
  eventArmingOverrides := [⟨"frame_boundary", .observation⟩]
  origin := none
  inputPath := none
  initialState := none
  stopOn := none
  startOn := none
  initialSnapshots := []
  terminalSnapshots := []
  terminalStateProfile := none
  requireRepeatable := false
  limits := some ⟨maxEvents, none, none⟩

def noMovie (_ : FsPath) (_ : ℕ) (_ : RecordingInputMovieCapability) :
    Except RecordingInputError AcquiredRecordingMovie :=
  .error .relativePath

/-- What `observedBoundary` is admitted as. -/
def observedBoundaryRequest (maxEvents : ℕ) : EffectiveRequest where
  request :=
    { frames := 1, warmupFrames := 1
      eventClasses := [⟨"frame_boundary", frameBoundaryContract.contractSha256⟩]
      eventFilters := [], eventArming := [⟨"frame_boundary", .observation⟩]
      limits := ⟨2, maxEvents, 16777216, 4096, 30000, 250⟩
      inputMovie := none, initialState := none, stopOn := none, startOn := none
      initialSnapshots := [], terminalSnapshots := [], terminalState := none }
  origin := .nextFrameBoundary
  movie := none
  state := none

theorem warmupCapability_valid : warmupCapability.validate warmupDigests frameBoundaryRegistry = .ok () := by
  have hrevision : warmupCapability.validateRevision warmupDigests = .ok () :=
    require_bind_eq_ok.mpr ⟨by decide +kernel, require_eq_ok.mpr rfl⟩
  unfold RecordingCapability.validate
  rw [hrevision]
  decide +kernel

/-- A request with `max_events` of the observation alone is admitted and then refused. -/
theorem effective_request_refused :
    warmupCapability.validate warmupDigests frameBoundaryRegistry = .ok () ∧
      effectiveRequest warmupCapability (observedBoundary (some 1)) noMovie [] [] none =
        .ok (observedBoundaryRequest 1) ∧
      ¬ RequestChecks frameBoundaryRegistry (observedBoundaryRequest 1).request := by
  refine ⟨warmupCapability_valid, by decide +kernel, fun hchecks => ?_⟩
  have hevents := (validateRecordingLimits_eq_ok.mp hchecks.limits).eventsFrames
  exact absurd hevents (by decide)

theorem effective_request_checks_covered :
    warmupCapability.validate warmupDigests frameBoundaryRegistry = .ok () ∧
      effectiveRequest warmupCapability (observedBoundary (some 2)) noMovie [] [] none =
        .ok (observedBoundaryRequest 2) ∧
      RequestChecks frameBoundaryRegistry (observedBoundaryRequest 2).request := by
  have h : effectiveRequest warmupCapability (observedBoundary (some 2)) noMovie [] [] none =
      .ok (observedBoundaryRequest 2) := by decide +kernel
  refine ⟨warmupCapability_valid, h, (effective_request_checks_iff warmupCapability_valid h).mpr fun maxEvents hsome => ?_⟩
  obtain rfl := Option.some.inj hsome
  exact le_refl 2

end Emucap.Live
