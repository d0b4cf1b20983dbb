import Emucap.Live.Tcp.Ports

/-!
# The selection never takes a live generation from another session

`Collects` says of the ports seen so far what was collected of them (`visitPort_cases`). Where nothing of this session
was collected, a listener is bound on a candidate port outside of the reserved ones (`bindFresh_bound`).
-/

namespace Emucap.Live.Tcp

open Emucap.Lib

/-! ## Ports -/

theorem mem_portsFrom {base port : UInt16} (n k : ℕ) (hn : k + n ≤ 2 ^ 16) :
    port ∈ portsFrom base ((List.range' k n).map UInt16.ofNat) ↔
      ∃ i, k ≤ i ∧ i < k + n ∧ port.toNat = base.toNat + i := by
  induction n generalizing k with
  | zero =>
    constructor
    · intro h
      cases h
    · rintro ⟨i, hlow, hhigh, -⟩
      omega
  | succ n ih =>
    have hsize : UInt16.size = 2 ^ 16 := rfl
    have hk : (UInt16.ofNat k).toNat = k := UInt16.toNat_ofNat_of_lt' (by omega)
    rw [List.range'_succ, List.map_cons, portsFrom, checkedAddPort, hk]
    split_ifs with hfits
    · have hsum : (base + UInt16.ofNat k).toNat = base.toNat + k := by
        rw [UInt16.toNat_add, hk, Nat.mod_eq_of_lt hfits]
      simp only [List.mem_cons, ih (k + 1) (by omega)]
      constructor
      · rintro (rfl | ⟨i, hlow, hhigh, hport⟩)
        · exact ⟨k, le_rfl, by omega, hsum⟩
        · exact ⟨i, by omega, by omega, hport⟩
      · rintro ⟨i, hlow, hhigh, hport⟩
        by_cases hi : i = k
        · left
          apply UInt16.toNat_inj.mp
          rw [hsum, hport, hi]
        · exact .inr ⟨i, by omega, by omega, hport⟩
    · constructor
      · intro h
        cases h
      · rintro ⟨i, hlow, -, hport⟩
        have hlt := port.toNat_lt
        omega

theorem mem_candidatePorts {base port : UInt16} :
    port ∈ candidatePorts base ↔ base.toNat ≤ port.toNat ∧ port.toNat < base.toNat + 16 := by
  rw [candidatePorts, mem_portsFrom _ _ (by decide)]
  have hrange : autoPortRange.toNat = 16 := rfl
  rw [hrange]
  constructor
  · rintro ⟨i, -, hi, hport⟩
    omega
  · rintro ⟨hlow, hhigh⟩
    exact ⟨port.toNat - base.toNat, by omega, by omega, by omega⟩

theorem portLimit_toNat (base : UInt16) :
    (base.toUInt32 + autoPortRange.toUInt32).toNat = base.toNat + 16 := by
  have hlt := base.toNat_lt
  have hrange : autoPortRange.toUInt32.toNat = 16 := rfl
  rw [UInt32.toNat_add, UInt16.toNat_toUInt32, hrange, Nat.mod_eq_of_lt]
  omega

theorem inPortRange_iff {base port : UInt16} : inPortRange base port = true ↔ port ∈ candidatePorts base := by
  have hlimit : port.toUInt32 < base.toUInt32 + autoPortRange.toUInt32 ↔ port.toNat < base.toNat + 16 := by
    rw [UInt32.lt_iff_toNat_lt, portLimit_toNat, UInt16.toNat_toUInt32]
  rw [inPortRange, mem_candidatePorts, Bool.and_eq_true, decide_eq_true_eq, decide_eq_true_eq, hlimit,
    UInt16.le_iff_toNat_le]

/-! ## Generations -/

section generations
variable (processes : Processes) (store : UInt16 → PortFiles)

def Current (port : UInt16) (current : LaunchManifest) : Prop :=
  (store port).readCurrent port = .ok (some current)

/-- The emulator or the bridge of the port's generation is not known to have exited. -/
def MayBeLive (port : UInt16) : Prop :=
  ∃ current, Current store port current ∧
    (processes.state current.emulator ≠ .exited ∨ ∃ bridge, current.bridge = some bridge ∧
      processes.state bridge ≠ .exited)

/-- The lease that is recorded for this very generation. -/
def LeaseOf (port : UInt16) (current : LaunchManifest) (lease : LeaseRecord) : Prop :=
  ∃ record, (store port).readLink current.launchId = .ok (some record) ∧ record.launchId = current.launchId ∧
    record.lease = some lease

def SameControl (lease : LeaseRecord) : Prop :=
  ∃ key, processes.controlKey = some key ∧ lease.controlSessionKey = some key

def Owned (port : UInt16) : Prop :=
  ∃ current lease, Current store port current ∧ LeaseOf store port current lease ∧ SameControl processes lease

/-- The port's generation is alive, has a lease of this session that this process holds or whose holder has
exited, and this is its well-formed reclaim token. -/
def Reclaimable (port : UInt16) (token : String) : Prop :=
  ∃ current lease, Current store port current ∧ processes.state current.emulator = .alive ∧
    LeaseOf store port current lease ∧ SameControl processes lease ∧
    (lease.holder = processes.holder ∨ processes.state lease.holder = .exited) ∧
    (store port).readAuth current.launchId = .ok (some token) ∧ isCurrentReclaimToken token = true

variable {processes store} {port : UInt16} {current : LaunchManifest} {lease : LeaseRecord}

theorem stored_eq_ok {α : Type} {x : Except IoError α} {a : α} : stored x = .ok a ↔ x = .ok a := by
  unfold stored
  cases x with
  | error e => simp
  | ok b => simp

theorem mayBeLive_iff : mayBeLive processes current = true ↔
    processes.state current.emulator ≠ .exited ∨ ∃ bridge, current.bridge = some bridge ∧
      processes.state bridge ≠ .exited := by
  unfold mayBeLive LaunchManifest.processState LaunchManifest.bridgeProcessState
  cases current.bridge with
  | none => simp
  | some bridge => simp

theorem sameControl_iff : sameControl processes lease = true ↔ SameControl processes lease := by
  unfold sameControl SameControl
  cases processes.controlKey with
  | none => simp
  | some key => simp

theorem returned_iff : (leaseStateOf processes lease = .held ∨ leaseStateOf processes lease = .available) ↔
    (lease.holder = processes.holder ∨ processes.state lease.holder = .exited) := by
  unfold leaseStateOf
  split_ifs with hheld
  · simp [hheld]
  · cases processes.state lease.holder with
    | alive => simp [hheld]
    | exited => simp
    | unknown => simp [hheld]

theorem Current.unique {other : LaunchManifest} (h : Current store port current) (h' : Current store port other) :
    current = other := by
  unfold Current at h h'
  rw [h] at h'
  cases h'
  rfl

theorem LeaseOf.unique {other : LeaseRecord} (h : LeaseOf store port current lease)
    (h' : LeaseOf store port current other) : lease = other := by
  obtain ⟨record, hread, -, hlease⟩ := h
  obtain ⟨record', hread', -, hlease'⟩ := h'
  rw [hread] at hread'
  cases hread'
  rw [hlease] at hlease'
  cases hlease'
  rfl

/-! ## One port -/

inductive Visit (processes : Processes) (store : UInt16 → PortFiles) (port : UInt16) (c : Collected) :
    Collected → Prop where
  | gone (h : ¬ MayBeLive processes store port) : Visit processes store port c c
  | foreign (h : ¬ Owned processes store port) :
    Visit processes store port c { c with reservedPorts := c.reservedPorts ++ [port] }
  | blocked (h : ∀ token, ¬ Reclaimable processes store port token) (candidate : Json) :
    Visit processes store port c { c with
      reservedPorts := c.reservedPorts ++ [port], sameSessionBlocked := c.sameSessionBlocked ++ [candidate] }
  | unreclaimable (h : ∀ token, ¬ Reclaimable processes store port token) (candidate : Json) :
    Visit processes store port c { c with
      reservedPorts := c.reservedPorts ++ [port], unreclaimable := c.unreclaimable ++ [candidate] }
  | preferred (token : String) (h : ∀ other, Reclaimable processes store port other ↔ other = token)
    (candidate : Json) :
    Visit processes store port c { c with
      reservedPorts := c.reservedPorts ++ [port], preferred := c.preferred ++ [(port, token, candidate)] }

theorem reclaimable_iff {auth : Option String} (hcurrent : Current store port current)
    (hlease : LeaseOf store port current lease) (hcontrol : SameControl processes lease)
    (hauth : (store port).readAuth current.launchId = .ok auth) (token : String) :
    Reclaimable processes store port token ↔ processes.state current.emulator = .alive ∧
      auth.filter isCurrentReclaimToken = some token ∧
      (leaseStateOf processes lease = .held ∨ leaseStateOf processes lease = .available) := by
  rw [returned_iff, Option.filter_eq_some_iff]
  constructor
  · rintro ⟨current', lease', hcurrent', halive, hlease', -, hreturned, hauth', htoken⟩
    obtain rfl := hcurrent.unique hcurrent'
    obtain rfl := hlease.unique hlease'
    rw [hauth] at hauth'
    cases hauth'
    exact ⟨halive, ⟨rfl, htoken⟩, hreturned⟩
  · rintro ⟨halive, ⟨rfl, htoken⟩, hreturned⟩
    exact ⟨current, lease, hcurrent, halive, hlease, hcontrol, hreturned, hauth, htoken⟩

theorem collectOwn_visit {auth : Option String} (hcurrent : Current store port current)
    (hlease : LeaseOf store port current lease) (hcontrol : SameControl processes lease)
    (hauth : (store port).readAuth current.launchId = .ok auth) (c : Collected) :
    Visit processes store port c (collectOwn processes port current lease (auth.filter isCurrentReclaimToken)
      { c with reservedPorts := c.reservedPorts ++ [port] }) := by
  have hiff := reclaimable_iff hcurrent hlease hcontrol hauth
  unfold collectOwn LaunchManifest.processState
  by_cases halive : processes.state current.emulator = .alive
  · rw [if_neg (not_not_intro halive)]
    cases htoken : auth.filter isCurrentReclaimToken with
    | none => exact .unreclaimable (fun token h => by simp [hiff, htoken] at h) _
    | some token =>
      have hreturned : ∀ other, (leaseStateOf processes lease = .held ∨ leaseStateOf processes lease = .available) →
          (Reclaimable processes store port other ↔ other = token) := by
        intro other hstate
        rw [hiff, htoken, Option.some.injEq]
        constructor
        · rintro ⟨-, rfl, -⟩
          rfl
        · rintro rfl
          exact ⟨halive, rfl, hstate⟩
      have hkept : ∀ other, ¬ (leaseStateOf processes lease = .held ∨ leaseStateOf processes lease = .available) →
          ¬ Reclaimable processes store port other := fun other hstate h => hstate ((hiff other).mp h).2.2
      cases hstate : leaseStateOf processes lease with
      | held => exact .preferred token (fun other => hreturned other (.inl hstate)) _
      | available => exact .preferred token (fun other => hreturned other (.inr hstate)) _
      | occupied => exact .blocked (fun other => hkept other (by simp [hstate])) _
      | unknown => exact .blocked (fun other => hkept other (by simp [hstate])) _
  · rw [if_pos halive]
    exact .blocked (fun token h => halive ((hiff token).mp h).1) _

theorem visitReserved_cases {c c' : Collected} (hcurrent : Current store port current)
    (h : visitReserved processes store port current { c with reservedPorts := c.reservedPorts ++ [port] } = .ok c') :
    Visit processes store port c c' := by
  have hforeign : (∀ lease, LeaseOf store port current lease → ¬ SameControl processes lease) →
      ¬ Owned processes store port := by
    rintro hnone ⟨other, lease, hother, hlease, hcontrol⟩
    obtain rfl := hcurrent.unique hother
    exact hnone lease hlease hcontrol
  unfold visitReserved at h
  split at h
  next e herror =>
    cases h
    refine .foreign (hforeign ?_)
    rintro lease ⟨record, hread, -⟩
    rw [herror] at hread
    cases hread
  next record hrecord =>
    split at h
    next hnone =>
      cases h
      refine .foreign (hforeign ?_)
      rintro lease ⟨record', hread, hid, hlease⟩
      rw [hrecord] at hread
      cases hread
      simp [Option.filter, hid, hlease] at hnone
    next lease hsome =>
      obtain ⟨record', hfilter, hlease⟩ := Option.bind_eq_some_iff.mp hsome
      obtain ⟨rfl, hid⟩ := Option.filter_eq_some_iff.mp hfilter
      have hleaseOf : LeaseOf store port current lease := ⟨record', hrecord, by simpa using hid, hlease⟩
      by_cases hcontrol : sameControl processes lease = true
      · rw [if_neg (not_not_intro hcontrol)] at h
        obtain ⟨auth, hauth, h⟩ := bind_eq_ok.mp h
        cases h
        exact collectOwn_visit hcurrent hleaseOf ((sameControl_iff).mp hcontrol) ((stored_eq_ok).mp hauth) c
      · rw [if_pos hcontrol] at h
        cases h
        refine .foreign (hforeign fun other hother hsame => ?_)
        obtain rfl := hleaseOf.unique hother
        exact hcontrol ((sameControl_iff).mpr hsame)

theorem visitPort_cases {c c' : Collected} (h : visitPort processes store c port = .ok c') :
    Visit processes store port c c' := by
  unfold visitPort at h
  obtain ⟨found, hfound, h⟩ := bind_eq_ok.mp h
  rw [stored_eq_ok] at hfound
  cases found with
  | none =>
    cases h
    refine .gone ?_
    rintro ⟨current, hcurrent, -⟩
    rw [Current, hfound] at hcurrent
    cases hcurrent
  | some current =>
    have hcurrent : Current store port current := hfound
    simp only at h
    by_cases hlive : mayBeLive processes current = true
    · rw [if_neg (not_not_intro hlive)] at h
      exact visitReserved_cases hcurrent h
    · rw [if_pos hlive] at h
      cases h
      refine .gone ?_
      rintro ⟨other, hother, hlive'⟩
      obtain rfl := hcurrent.unique hother
      exact hlive ((mayBeLive_iff).mpr hlive')

/-! ## All ports -/

/-- What is collected of the ports `seen`. -/
structure Collects (processes : Processes) (store : UInt16 → PortFiles) (seen : List UInt16) (c : Collected) : Prop where
  reserved : ∀ port ∈ seen, MayBeLive processes store port → port ∈ c.reservedPorts
  preferred : ∀ port token, (∃ candidate, (port, token, candidate) ∈ c.preferred) ↔
    port ∈ seen ∧ Reclaimable processes store port token
  own : ∀ port ∈ seen, MayBeLive processes store port → Owned processes store port →
    (∃ token, Reclaimable processes store port token) ∨ c.sameSessionBlocked ≠ [] ∨ c.unreclaimable ≠ []

theorem Collects.empty : Collects processes store [] .empty :=
  ⟨by simp, by simp [Collected.empty], by simp⟩

theorem Reclaimable.mayBeLive {token : String} (h : Reclaimable processes store port token) :
    MayBeLive processes store port := by
  obtain ⟨current, -, hcurrent, halive, -⟩ := h
  exact ⟨current, hcurrent, .inl (by rw [halive]; decide)⟩

theorem Reclaimable.owned {token : String} (h : Reclaimable processes store port token) :
    Owned processes store port := by
  obtain ⟨current, lease, hcurrent, -, hlease, hcontrol, -⟩ := h
  exact ⟨current, lease, hcurrent, hlease, hcontrol⟩

theorem Collects.visit {seen : List UInt16} {c c' : Collected} (hc : Collects processes store seen c)
    (h : Visit processes store port c c') : Collects processes store (seen ++ [port]) c' := by
  -- a port without anything to attach to
  have hnot : (∀ token, ¬ Reclaimable processes store port token) → ∀ p token,
      (∃ candidate, (p, token, candidate) ∈ c.preferred) ↔
        p ∈ seen ++ [port] ∧ Reclaimable processes store p token := by
    intro hport p token
    rw [hc.preferred, List.mem_append, List.mem_singleton]
    constructor
    · rintro ⟨hmem, hp⟩
      exact ⟨.inl hmem, hp⟩
    · rintro ⟨hmem | rfl, hp⟩
      · exact ⟨hmem, hp⟩
      · exact absurd hp (hport token)
  have hreserved : ∀ p ∈ seen ++ [port], MayBeLive processes store p → p ∈ c.reservedPorts ++ [port] := by
    intro p hp hlive
    rw [List.mem_append, List.mem_singleton] at hp ⊢
    exact hp.imp_left fun hseen => hc.reserved p hseen hlive
  have hown : ∀ p ∈ seen, MayBeLive processes store p → Owned processes store p →
      (∃ token, Reclaimable processes store p token) ∨ c.sameSessionBlocked ≠ [] ∨ c.unreclaimable ≠ [] := hc.own
  cases h with
  | gone hgone =>
    refine ⟨fun p hp hlive => ?_, hnot fun token h => hgone h.mayBeLive, fun p hp hlive howned => ?_⟩
    all_goals
      rw [List.mem_append, List.mem_singleton] at hp
      obtain hp | rfl := hp
    · exact hc.reserved p hp hlive
    · exact absurd hlive hgone
    · exact hown p hp hlive howned
    · exact absurd hlive hgone
  | foreign hforeign =>
    refine ⟨hreserved, hnot fun token h => hforeign h.owned, fun p hp hlive howned => ?_⟩
    rw [List.mem_append, List.mem_singleton] at hp
    obtain hp | rfl := hp
    · exact hown p hp hlive howned
    · exact absurd howned hforeign
  | blocked hnone candidate =>
    exact ⟨hreserved, hnot hnone, fun p _ _ _ => .inr (.inl (by simp))⟩
  | unreclaimable hnone candidate =>
    exact ⟨hreserved, hnot hnone, fun p _ _ _ => .inr (.inr (by simp))⟩
  | preferred token htoken candidate =>
    refine ⟨hreserved, fun p other => ?_, fun p hp hlive howned => ?_⟩
    · simp only [List.mem_append, List.mem_singleton, Prod.mk.injEq, exists_or, hc.preferred]
      constructor
      · rintro (⟨hmem, hp⟩ | ⟨_, rfl, rfl, -⟩)
        · exact ⟨.inl hmem, hp⟩
        · exact ⟨.inr rfl, (htoken _).mpr rfl⟩
      · rintro ⟨hmem | rfl, hp⟩
        · exact .inl ⟨hmem, hp⟩
        · exact .inr ⟨candidate, rfl, (htoken other).mp hp, rfl⟩
    · rw [List.mem_append, List.mem_singleton] at hp
      obtain hp | rfl := hp
      · exact hown p hp hlive howned
      · exact .inl ⟨token, (htoken token).mpr rfl⟩

theorem collects_foldlM {ports seen : List UInt16} {c c' : Collected} (hc : Collects processes store seen c)
    (h : ports.foldlM (visitPort processes store) c = .ok c') : Collects processes store (seen ++ ports) c' := by
  induction ports generalizing seen c with
  | nil =>
    cases h
    rw [List.append_nil]
    exact hc
  | cons port ports ih =>
    rw [List.foldlM_cons] at h
    obtain ⟨next, hvisit, h⟩ := bind_eq_ok.mp h
    rw [← List.singleton_append, ← List.append_assoc]
    exact ih (hc.visit (visitPort_cases hvisit)) h

theorem selectRuntimeGeneration_collects {base : UInt16} {selection : RuntimeSelection}
    (h : selectRuntimeGeneration processes store base = .ok selection) :
    ∃ c, selection = c.selection ∧ Collects processes store (candidatePorts base) c := by
  obtain ⟨c, hfold, hc⟩ := bind_eq_ok.mp h
  cases hc
  exact ⟨c, rfl, collects_foldlM Collects.empty hfold⟩

theorem Collects.attach {base port : UInt16} {token : String} {c : Collected}
    (hc : Collects processes store (candidatePorts base) c) (h : c.selection = .attach port token) :
    port ∈ candidatePorts base ∧ ∀ p t, p ∈ candidatePorts base ∧ Reclaimable processes store p t ↔
      p = port ∧ t = token := by
  have hiff : ∀ p t, p ∈ candidatePorts base ∧ Reclaimable processes store p t ↔ p = port ∧ t = token := by
    intro p t
    rw [← hc.preferred]
    unfold Collected.selection at h
    split at h
    next only t' candidate hpreferred =>
      cases h
      rw [hpreferred]
      simp
    next => cases h
    next =>
      split_ifs at h
  exact ⟨((hiff port token).mpr ⟨rfl, rfl⟩).1, hiff⟩

theorem Collects.scan {base : UInt16} {reserved : List UInt16} {c : Collected}
    (hc : Collects processes store (candidatePorts base) c) (h : c.selection = .scan reserved) :
    (∀ port ∈ candidatePorts base, MayBeLive processes store port → ¬ Owned processes store port) ∧
      ∀ port ∈ candidatePorts base, MayBeLive processes store port → port ∈ reserved := by
  unfold Collected.selection at h
  split at h
  next => cases h
  next => cases h
  next hnone =>
    split_ifs at h with hblocked hunreclaimable
    cases h
    refine ⟨fun port hport hlive howned => ?_, fun port hport hlive => hc.reserved port hport hlive⟩
    obtain ⟨token, htoken⟩ | hne | hne := hc.own port hport hlive howned
    · obtain ⟨candidate, hmem⟩ := (hc.preferred port token).mpr ⟨hport, htoken⟩
      rw [hnone] at hmem
      cases hmem
    · exact hblocked hne
    · exact hunreclaimable hne

end generations

/-! ## Binding -/

section binding
variable {α : Type} {link : LinkState} {E : LinkError → LinkState → Prop}

theorem wp_ofExcept {x : Except LinkError α} {Q : α → LinkState → Prop} (hok : ∀ a, x = .ok a → Q a link)
    (herror : ∀ e, E e link) : wp (ofExcept x) Q E link := by
  cases x with
  | ok a => exact hok a rfl
  | error e => exact herror e

theorem wp_ofSocket {x : Except SocketError α} {Q : α → LinkState → Prop} (hok : ∀ a, Q a link)
    (herror : ∀ e, E e link) : wp (ofSocket x) Q E link := by
  cases x with
  | ok a => exact hok a
  | error e => exact herror _

variable {s : Surroundings} {host : String} {base : UInt16}

/-- The selection's result, as the listener has to respect it. -/
def Respects (base : UInt16) (selection : RuntimeSelection) (port : UInt16) : Prop :=
  match selection with
  | .scan reserved => port ∈ candidatePorts base ∧ port ∉ reserved
  | .attach attached _ => port = attached
  | .blocked _ => False

theorem listenOn_port {port : UInt16} (h : port ≠ 0) (bound : Bound) : (listenOn port bound).port = port := if_neg h

theorem ne_zero_of_candidate {port : UInt16} (hbase : base ≠ 0) (h : port ∈ candidatePorts base) : port ≠ 0 := by
  rintro rfl
  have hlow := (mem_candidatePorts.mp h).1
  exact hbase (UInt16.toNat_inj.mp (Nat.le_zero.mp hlow))

theorem tryPersisted_bound (hbase : base ≠ 0) (reserved : List UInt16) (persisted : Option UInt16) :
    wp (tryPersisted s host base reserved persisted)
      (fun found t => t.listener = link.listener ∧ ∀ l, found = some l → l.port ∈ candidatePorts base ∧ l.port ∉ reserved)
      (fun _ t => t.listener = link.listener) link := by
  have hnone : wp (pure none : LinkM (Option Listener))
      (fun found t => t.listener = link.listener ∧ ∀ l, found = some l → l.port ∈ candidatePorts base ∧ l.port ∉ reserved)
      (fun _ t => t.listener = link.listener) link := ⟨rfl, fun l hl => by cases hl⟩
  unfold tryPersisted
  cases persisted with
  | none => exact hnone
  | some port =>
    simp only
    by_cases hport : inPortRange base port = true ∧ port ∉ reserved
    · rw [if_neg (not_not_intro hport)]
      have hcandidate := inPortRange_iff.mp hport.1
      cases s.bind .persisted port with
      | error e => exact hnone
      | ok bound =>
        simp only
        cases (listenOn port bound).setNonblocking with
        | error e => exact hnone
        | ok _ =>
          refine ⟨rfl, fun l hl => ?_⟩
          cases hl
          rw [listenOn_port (ne_zero_of_candidate hbase hcandidate)]
          exact ⟨hcandidate, hport.2⟩
    · rw [if_pos hport]
      exact hnone

theorem scanPorts_bound (hbase : base ≠ 0) (reserved : List UInt16) {ports : List UInt16}
    (hports : ∀ port ∈ ports, port ∈ candidatePorts base) :
    wp (scanPorts s host reserved ports)
      (fun found t => t.listener = link.listener ∧ ∀ l, found = some l → l.port ∈ candidatePorts base ∧ l.port ∉ reserved)
      (fun _ t => t.listener = link.listener) link := by
  induction ports with
  | nil => exact ⟨rfl, fun l hl => by cases hl⟩
  | cons port ports ih =>
    have hrest := ih fun p hp => hports p (List.mem_cons_of_mem port hp)
    unfold scanPorts
    split_ifs with hreserved
    · exact hrest
    · cases s.bind .scan port with
      | error e =>
        cases e with
        | addrInUse => exact hrest
        | failed e => exact rfl
      | ok bound =>
        have hcandidate := hports port List.mem_cons_self
        simp only
        rw [wp_bind]
        refine wp_ofSocket (fun _ => ⟨rfl, fun l hl => ?_⟩) fun _ => rfl
        cases hl
        rw [listenOn_port (ne_zero_of_candidate hbase hcandidate)]
        exact ⟨hcandidate, hreserved⟩

theorem bindFresh_bound (hbase : base ≠ 0) (reserved : List UInt16) (persisted : Option UInt16) :
    wp (bindFresh s host base reserved persisted)
      (fun found t => t.listener = link.listener ∧
        ∀ l, found.1 = some l → l.port ∈ candidatePorts base ∧ l.port ∉ reserved)
      (fun _ t => t.listener = link.listener) link := by
  unfold bindFresh
  rw [wp_bind]
  refine wp_mono (tryPersisted_bound hbase reserved persisted) ?_ (fun _ _ h => h)
  rintro (_ | listener) t ⟨ht, hfound⟩
  · simp only
    rw [wp_bind, ← ht]
    exact wp_mono (scanPorts_bound hbase reserved fun _ h => h) (fun _ _ h => h) (fun _ _ h => h)
  · exact ⟨ht, hfound⟩

theorem beginBinding_bound {selection : RuntimeSelection} (hbase : base ≠ 0)
    (hselect : selectRuntimeGeneration s.processes s.store base = .ok selection)
    (hattach : ∀ port token, selection = .attach port token → port ∈ candidatePorts base) :
    wp (beginBinding s host base)
      (fun r t => t.listener = link.listener ∧
        match r.1 with
        | none => selection = .scan r.2
        | some (listener, _) => Respects base selection listener.port)
      (fun _ t => t.listener = link.listener) link := by
  unfold beginBinding
  rw [wp_bind, wp_modify, if_neg hbase, wp_bind]
  refine wp_ofExcept (fun found hfound => ?_) fun _ => rfl
  rw [hselect] at hfound
  cases hfound
  cases selection with
  | scan reserved => exact ⟨rfl, rfl⟩
  | blocked candidates => exact rfl
  | attach port token =>
    simp only [bindAttach]
    rw [wp_bind]
    cases s.bind .attach port with
    | error e =>
      cases e with
      | addrInUse => exact rfl
      | failed e => exact rfl
    | ok bound =>
      simp only
      rw [wp_bind]
      refine wp_ofSocket (fun _ => ⟨rfl, ?_⟩) fun _ => rfl
      exact listenOn_port (ne_zero_of_candidate hbase (hattach port token rfl)) bound

def SameListener (link t : LinkState) : Prop := t.listener = link.listener

theorem SameListener.refl (link : LinkState) : SameListener link link := rfl

theorem ofExcept_same (x : Except LinkError α) : Lib.Keeps SameListener (ofExcept x) :=
  fun _ => wp_ofExcept (fun _ _ => rfl) fun _ => rfl

theorem SameListener.bind {β : Type} {x : LinkM α} {f : α → LinkM β} (hx : Lib.Keeps SameListener x)
    (hf : ∀ a, Lib.Keeps SameListener (f a)) : Lib.Keeps SameListener (x >>= f) :=
  hx.bind hf fun h h' => h'.trans h

theorem adoptToken_same (listener : Listener) (reclaimToken : Option String) (fromPersist : Bool) :
    Lib.Keeps SameListener (adoptToken s listener reclaimToken fromPersist) := by
  have hpure : ∀ token : Option String, Lib.Keeps SameListener (pure token : LinkM (Option String)) :=
    fun token => keeps_pure SameListener.refl token
  refine SameListener.bind ?_ fun live => SameListener.bind ?_ fun token => ?_
  · unfold liveToken
    split_ifs
    · exact ofExcept_same _
    · exact hpure reclaimToken
  · unfold ownToken
    split_ifs
    · exact ofExcept_same _
    · exact hpure live
  · cases token with
    | some token => exact SameListener.bind (ofExcept_same _) fun _ => keeps_modify fun _ => rfl
    | none => exact SameListener.bind (keeps_get SameListener.refl) fun _ => ofExcept_same _

theorem persistedPort_same : Lib.Keeps SameListener (persistedPort s base) := by
  unfold persistedPort
  cases persistIdentity s base with
  | none => exact keeps_pure SameListener.refl _
  | some identity => exact ofExcept_same _

theorem recordPort_same (port : UInt16) : Lib.Keeps SameListener (recordPort s base port) := by
  unfold recordPort
  cases persistIdentity s base with
  | none => exact keeps_pure SameListener.refl _
  | some identity => exact ofExcept_same _

theorem bindListener_respects {selection : RuntimeSelection} (hbase : base ≠ 0)
    (hselect : selectRuntimeGeneration s.processes s.store base = .ok selection)
    (hattach : ∀ port token, selection = .attach port token → port ∈ candidatePorts base) :
    wp (bindListener s host base) (fun _ t => ∃ l, t.listener = some l ∧ Respects base selection l.port)
      (fun _ t => t.listener = link.listener) link := by
  unfold bindListener
  rw [wp_bind]
  refine wp_mono (beginBinding_bound hbase hselect hattach) ?_ (fun _ _ h => h)
  rintro ⟨attached, reserved⟩ t₁ ⟨h₁, hbegin⟩
  simp only at hbegin ⊢
  rw [wp_bind]
  refine wp_mono (persistedPort_same t₁) (fun persisted t₂ h₂ => ?_) (fun _ t h => h.trans h₁)
  have hchosen : wp (chooseListener s host base attached reserved persisted)
      (fun found t => t.listener = link.listener ∧ ∀ l, found.1 = some l → Respects base selection l.port)
      (fun _ t => t.listener = link.listener) t₂ := by
    cases attached with
    | some attached =>
      refine ⟨h₂.trans h₁, fun l hl => ?_⟩
      cases hl
      exact hbegin
    | none =>
      refine wp_mono (bindFresh_bound hbase reserved persisted) ?_ (fun _ t ht => ht.trans (h₂.trans h₁))
      rintro found t ⟨ht, hfound⟩
      refine ⟨ht.trans (h₂.trans h₁), fun l hl => ?_⟩
      rw [show selection = .scan reserved from hbegin]
      exact hfound l hl
  rw [wp_bind]
  refine wp_mono hchosen ?_ (fun _ _ h => h)
  rintro ⟨bound, fromPersist⟩ t₃ ⟨h₃, hrespects⟩
  cases bound with
  | none => exact h₃
  | some listener =>
    simp only
    rw [wp_bind]
    refine wp_ofSocket (fun _ => ?_) fun _ => h₃
    rw [wp_bind]
    refine wp_mono (recordPort_same listener.port t₃) (fun _ t₄ h₄ => ?_) (fun _ _ h => h.trans h₃)
    rw [wp_bind]
    refine wp_mono (adoptToken_same listener _ fromPersist t₄) (fun _ t₅ _ => ?_)
      (fun _ _ h => h.trans (h₄.trans h₃))
    exact ⟨listener, rfl, hrespects listener rfl⟩

theorem ensureConnected_respects {selection : RuntimeSelection} (hlistener : link.listener = none)
    (hbase : (splitAddr link.addr).2 ≠ 0)
    (hselect : selectRuntimeGeneration s.processes s.store (splitAddr link.addr).2 = .ok selection)
    (hattach : ∀ port token, selection = .attach port token → port ∈ candidatePorts (splitAddr link.addr).2) :
    ∀ l, (after (ensureConnected s) link).listener = some l → Respects (splitAddr link.addr).2 selection l.port := by
  obtain ⟨P, hP⟩ : ∃ P : LinkState → Prop, P = fun t =>
      ∀ l, t.listener = some l → Respects (splitAddr link.addr).2 selection l.port := ⟨_, rfl⟩
  have hunbound : ∀ {t : LinkState}, t.listener = link.listener → P t := by
    rw [hP]
    intro t ht l hl
    rw [ht, hlistener] at hl
    cases hl
  suffices h : wp (ensureConnected s) (fun _ => P) (fun _ => P) link by
    have hafter := after_of_wp h
    rw [hP] at hafter
    exact hafter
  have hbound : wp (bindIfNeeded s) (fun _ => P) (fun _ => P) link := by
    unfold bindIfNeeded
    rw [wp_bind, wp_get, hlistener]
    refine wp_mono (bindListener_respects hbase hselect hattach) ?_ (fun _ _ h => hunbound h)
    rintro - t ⟨l, hl, hrespects⟩
    rw [hP]
    intro l' hl'
    rw [hl] at hl'
    cases hl'
    exact hrespects
  have hpreaccept : wp (do
      bindIfNeeded s
      ofExcept s.armPreaccept
      if ← ofExcept s.finishNewPreaccept then return ()
      throw .notConnected) (fun _ => P) (fun _ => P) link := by
    rw [wp_bind]
    refine wp_mono hbound (fun _ t ht => ?_) (fun _ _ ht => ht)
    rw [wp_bind]
    refine wp_ofExcept (fun _ _ => ?_) fun _ => ht
    rw [wp_bind]
    refine wp_ofExcept (fun done _ => ?_) fun _ => ht
    split_ifs
    · exact ht
    · exact ht
  unfold ensureConnected
  by_cases hconnected : s.connected = true
  · rw [if_pos hconnected]
    exact hunbound rfl
  · rw [if_neg hconnected, wp_bind]
    refine wp_ofExcept (fun done _ => ?_) fun _ => hunbound rfl
    cases done with
    | true => exact hunbound rfl
    | false =>
      by_cases hpending : s.preacceptPending = true
      · simp only [hpending]
        exact hunbound rfl
      · simp only [hpending]
        exact hpreaccept

end binding

/-! ## The selection and the binding -/

/-- Whatever the store holds and whatever state each process is in: an attachment is to the only generation that
can be reclaimed, with its token; a scan leaves no live generation of this session, and a listener bound after it
is not on the port of a generation that may be live; and neither the ports that are looked at nor the limit for
the persisted port wrap around. -/
theorem port_selection (s : Surroundings) (base : UInt16) :
    (∀ port token, selectRuntimeGeneration s.processes s.store base = .ok (.attach port token) →
      port ∈ candidatePorts base ∧ ∀ p t, p ∈ candidatePorts base ∧ Reclaimable s.processes s.store p t ↔
        p = port ∧ t = token) ∧
    (∀ reserved, selectRuntimeGeneration s.processes s.store base = .ok (.scan reserved) →
      (∀ port ∈ candidatePorts base, MayBeLive s.processes s.store port → ¬ Owned s.processes s.store port) ∧
      ∀ link : LinkState, link.listener = none → (splitAddr link.addr).2 = base → base ≠ 0 →
        ∀ l, (after (ensureConnected s) link).listener = some l → ¬ MayBeLive s.processes s.store l.port) ∧
    (∀ port, port ∈ candidatePorts base ↔ base.toNat ≤ port.toNat ∧ port.toNat < base.toNat + 16) ∧
    (base.toUInt32 + autoPortRange.toUInt32).toNat = base.toNat + 16 := by
  refine ⟨fun port token hselect => ?_, fun reserved hselect => ?_, fun port => mem_candidatePorts,
    portLimit_toNat base⟩
  · obtain ⟨c, hc, hcollects⟩ := selectRuntimeGeneration_collects hselect
    exact hcollects.attach hc.symm
  · obtain ⟨c, hc, hcollects⟩ := selectRuntimeGeneration_collects hselect
    obtain ⟨hforeign, hreserved⟩ := hcollects.scan hc.symm
    refine ⟨hforeign, fun link hlistener haddr hbase l hl hlive => ?_⟩
    subst haddr
    obtain ⟨hcandidate, hfree⟩ := ensureConnected_respects hlistener hbase hselect (by simp) l hl
    exact hfree (hreserved l.port hcandidate hlive)

/-! ## Two generations -/

def emulator (pid : ℕ) : ProcessIdentity := ⟨pid, some "boot:1"⟩

def launched (launchId : String) (port pid : ℕ) : LaunchManifest where
  schemaVersion := 1
  launchId := launchId
  port := port
  adapter := "mame"
  system := "arcade"
  content := "game.zip"
  emulator := emulator pid
  contentIdentity := none
  build := none
  bridge := none
  backendEndpoint := none
  executionProfile := none
  startFrozen := false

def leased (launchId key : String) (holder : ℕ) : LinkRecord where
  schemaVersion := 1
  launchId := launchId
  temporalOperation := none
  lease := some ⟨some key, emulator holder, 1, 1⟩
  lastIdentity := none
  lastResponseUnixMs := none
  lastMethod := none
  lastStatus := none
  transportState := .connected
  consecutiveTimeouts := 0
  lastFailure := none
  truncated := false
  updatedAtUnixMs := 1

def reclaimToken : String := "reclaim-" ++ String.ofList (List.replicate 52 '7')

/-- Another session's generation on the base port, and on the next port one whose control process is gone. -/
def twoGenerations : Surroundings where
  processes := ⟨fun p => if p.pid = 9 then .exited else .alive, emulator 8, some "own"⟩
  store port :=
    if port = 47800 then
      ⟨.ok (some (launched "launch-a" 47800 1)), fun _ => .ok (some (leased "launch-a" "other" 9)),
        fun _ => .ok (some reclaimToken)⟩
    else if port = 47801 then
      ⟨.ok (some (launched "launch-b" 47801 2)), fun _ => .ok (some (leased "launch-b" "own" 9)),
        fun _ => .ok (some reclaimToken)⟩
    else ⟨.ok none, fun _ => .ok none, fun _ => .ok none⟩
  connected := false
  finishPreaccept := .ok false
  preacceptPending := false
  bind _ port := .ok ⟨port, .ok (), .ok ("127.0.0.1:" ++ toString port.toNat)⟩
  ownSessionIdentity := none
  readPersistedPort _ := .ok none
  writePersistedPort _ _ := .ok ()
  reusableSessionToken _ := .ok none
  setReclaimToken _ := .ok ()
  writeSessionToken _ _ := .ok ()
  armPreaccept := .ok ()
  finishNewPreaccept := .ok false

theorem port_selection_twoGenerations :
    selectRuntimeGeneration twoGenerations.processes twoGenerations.store 47800 = .ok (.attach 47801 reclaimToken) ∧
      ∀ p t, p ∈ candidatePorts 47800 ∧ Reclaimable twoGenerations.processes twoGenerations.store p t ↔
        p = 47801 ∧ t = reclaimToken := by
  have hselect : selectRuntimeGeneration twoGenerations.processes twoGenerations.store 47800 =
      .ok (.attach 47801 reclaimToken) := by rfl
  exact ⟨hselect, ((port_selection twoGenerations 47800).1 47801 reclaimToken hselect).2⟩

end Emucap.Live.Tcp
