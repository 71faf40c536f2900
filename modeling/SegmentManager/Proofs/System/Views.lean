import SegmentManager.System
import SegmentManager.Proofs.Cache.OpenIndexes
import SegmentManager.Proofs.Cache.Records

/-!
# What a manager shows of its tiers

A manager holds instances, records and open indexes.  Each tier is seen through
a partial function, and these three functions are all that the tiers have to
agree on.
-/

namespace SegmentManager

namespace Manager

def running? (m : Manager) (segment : SegmentId) : Option Instance := m.instances.get? segment

def cached? (m : Manager) (k : Capability) (c : CollectionId) : Option Record :=
  (m.records k.scope).peek? c

def tracked? (m : Manager) (c : CollectionId) : Option Instance :=
  m.openIndexes.bind (·.tracked.peek? c)

structure WellFormed (m : Manager) : Prop where
  instances : m.instances.Distinct
  records : ∀ k : Capability, (m.records k.scope).WellFormed
  openIndexes : ∀ o, m.openIndexes = some o → o.tracked.WellFormed

/-! ## Replacing a cache of records -/

section WithRecords

variable (m : Manager) (scope : Scope) (cache : RecordCache)

@[simp] theorem deployment_withRecords :
    (m.withRecords scope cache).deployment = m.deployment := by cases scope <;> rfl

@[simp] theorem kinds_withRecords : (m.withRecords scope cache).kinds = m.kinds := by
  cases scope <;> rfl

@[simp] theorem instances_withRecords :
    (m.withRecords scope cache).instances = m.instances := by cases scope <;> rfl

@[simp] theorem openIndexes_withRecords :
    (m.withRecords scope cache).openIndexes = m.openIndexes := by cases scope <;> rfl

@[simp] theorem withRecords_records : m.withRecords scope (m.records scope) = m := by
  cases scope <;> rfl

end WithRecords

theorem records_withRecords (m : Manager) (k j : Capability) (cache : RecordCache) :
    (m.withRecords k.scope cache).records j.scope =
      if j = k then cache else m.records j.scope := by
  cases k <;> cases j <;> rfl

theorem cached?_withRecords (m : Manager) (k j : Capability) (cache : RecordCache)
    (c : CollectionId) :
    (m.withRecords k.scope cache).cached? j c =
      if j = k then cache.peek? c else m.cached? j c := by
  unfold cached?
  rw [records_withRecords]
  split <;> rfl

theorem WellFormed.withRecords {m : Manager} (hm : m.WellFormed) (k : Capability)
    {cache : RecordCache} (hcache : cache.WellFormed) :
    (m.withRecords k.scope cache).WellFormed := by
  refine ⟨?_, ?_, ?_⟩
  · rw [instances_withRecords]
    exact hm.instances
  · intro j
    rw [records_withRecords]
    split
    · exact hcache
    · exact hm.records j
  · rw [openIndexes_withRecords]
    exact hm.openIndexes

/-! ## Replacing the members -/

section WithMembers

variable (m : Manager) (members : List String)

@[simp] theorem kinds_withMembers : (m.withMembers members).kinds = m.kinds := by
  unfold withMembers
  cases m.deployment <;> rfl

@[simp] theorem instances_withMembers : (m.withMembers members).instances = m.instances := by
  unfold withMembers
  cases m.deployment <;> rfl

@[simp] theorem counters_withMembers : (m.withMembers members).counters = m.counters := by
  unfold withMembers
  cases m.deployment <;> rfl

@[simp] theorem records_withMembers (scope : Scope) :
    (m.withMembers members).records scope = m.records scope := by
  unfold withMembers
  cases m.deployment <;> cases scope <;> rfl

@[simp] theorem openIndexes_withMembers :
    (m.withMembers members).openIndexes = m.openIndexes := by
  unfold withMembers
  cases m.deployment <;> rfl

theorem running?_withMembers (segment : SegmentId) :
    (m.withMembers members).running? segment = m.running? segment := by
  unfold running?
  rw [instances_withMembers]

theorem cached?_withMembers (k : Capability) (c : CollectionId) :
    (m.withMembers members).cached? k c = m.cached? k c := by
  unfold cached?
  rw [records_withMembers]

end WithMembers

theorem withMembers_of_inProcess {m : Manager} {settings : Settings}
    (hdeployment : m.deployment = .inProcess settings) (members : List String) :
    m.withMembers members = m := by
  unfold withMembers
  rw [hdeployment]

/-! ## Managers that agree in part -/

structure SameSetup (m m' : Manager) : Prop where
  deployment : m'.deployment = m.deployment
  kinds : m'.kinds = m.kinds
  limits : ∀ k : Capability, (m'.records k.scope).limit? = (m.records k.scope).limit?

namespace SameSetup

variable {m m' m'' : Manager}

theorem refl (m : Manager) : SameSetup m m := ⟨rfl, rfl, fun _ => rfl⟩

theorem trans (h : SameSetup m m') (h' : SameSetup m' m'') : SameSetup m m'' :=
  ⟨h'.deployment.trans h.deployment, h'.kinds.trans h.kinds,
    fun k => (h'.limits k).trans (h.limits k)⟩

theorem symm (h : SameSetup m m') : SameSetup m' m :=
  ⟨h.deployment.symm, h.kinds.symm, fun k => (h.limits k).symm⟩

theorem root (h : SameSetup m m') : m'.persistDirectory = m.persistDirectory := by
  unfold persistDirectory
  rw [h.deployment]

theorem withRecords (m : Manager) (k : Capability) {cache : RecordCache}
    (hlimit : cache.limit? = (m.records k.scope).limit?) :
    SameSetup m (m.withRecords k.scope cache) := by
  refine ⟨deployment_withRecords m k.scope cache, kinds_withRecords m k.scope cache, ?_⟩
  intro j
  rw [records_withRecords]
  split
  · rename_i hj
    rw [hlimit, hj]
  · rfl

end SameSetup

structure SameCaches (m m' : Manager) : Prop extends SameSetup m m' where
  vectorRecords : m'.vectorRecords = m.vectorRecords
  metadataRecords : m'.metadataRecords = m.metadataRecords
  openIndexes : m'.openIndexes = m.openIndexes

namespace SameCaches

variable {m m' m'' : Manager}

theorem refl (m : Manager) : SameCaches m m := ⟨.refl m, rfl, rfl, rfl⟩

theorem trans (h : SameCaches m m') (h' : SameCaches m' m'') : SameCaches m m'' :=
  ⟨h.toSameSetup.trans h'.toSameSetup, h'.vectorRecords.trans h.vectorRecords,
    h'.metadataRecords.trans h.metadataRecords, h'.openIndexes.trans h.openIndexes⟩

theorem records (h : SameCaches m m') (scope : Scope) : m'.records scope = m.records scope := by
  cases scope with
  | vector => exact h.vectorRecords
  | metadata => exact h.metadataRecords
  | record => exact h.metadataRecords

theorem cached? (h : SameCaches m m') (k : Capability) (c : CollectionId) :
    m'.cached? k c = m.cached? k c := by
  unfold Manager.cached?
  rw [h.records]

theorem tracked? (h : SameCaches m m') (c : CollectionId) : m'.tracked? c = m.tracked? c := by
  unfold Manager.tracked?
  rw [h.openIndexes]

theorem wellFormed (h : SameCaches m m') (hm : m.WellFormed) (hinst : m'.instances.Distinct) :
    m'.WellFormed :=
  ⟨hinst, fun k => h.records k.scope ▸ hm.records k, h.openIndexes ▸ hm.openIndexes⟩

end SameCaches

end Manager

/-! ## Setting up -/

def Deployment.ownProcess : Deployment → Bool
  | .inProcess _ => true
  | .distributed _ => false

def Deployment.limit? : Deployment → Capability → Option Nat
  | .inProcess settings, .vectorReader =>
      if settings.usesMemoryBudget then some settings.memoryLimit else none
  | _, _ => none

theorem Deployment.limit?_of_remote {d : Deployment} (hremote : d.ownProcess = false)
    (k : Capability) : d.limit? k = none := by
  cases d with
  | inProcess settings => cases hremote
  | distributed workers => rfl

theorem Manager.ownProcess_withMembers (m : Manager) (members : List String) :
    (m.withMembers members).deployment.ownProcess = m.deployment.ownProcess := by
  cases hdeployment : m.deployment with
  | inProcess settings => rw [withMembers_of_inProcess hdeployment, hdeployment]
  | distributed workers =>
      unfold withMembers
      rw [hdeployment]
      rfl

theorem Manager.limit?_withMembers (m : Manager) (members : List String) (k : Capability) :
    (m.withMembers members).deployment.limit? k = m.deployment.limit? k := by
  cases hdeployment : m.deployment with
  | inProcess settings => rw [withMembers_of_inProcess hdeployment, hdeployment]
  | distributed workers =>
      unfold withMembers
      rw [hdeployment]
      rfl

theorem Manager.inProcess_eq_ok {settings : Settings} {g : Registry} {m : Manager}
    (hm : inProcess settings g = .ok m) :
    ∃ openIndexes, m = {
      deployment := .inProcess settings
      kinds := inProcessKinds g
      instances := .empty
      vectorRecords := if settings.usesMemoryBudget then .ofCapacity settings.memoryLimit
        else .unlimited
      metadataRecords := .unlimited
      openIndexes
      counters := {} } ∧
      (settings.isPersistent = true → openIndexes ≠ none) ∧
      ∀ o, openIndexes = some o → OpenIndexes.ofLimits settings.handleLimit
        (handlesPerIndex settings (inProcessKinds g)) = .ok o := by
  unfold inProcess at hm
  cases hvalid : settings.validate with
  | error fault =>
      rw [hvalid] at hm
      cases hm
  | ok valid =>
      rw [hvalid] at hm
      simp only [bind, Except.bind] at hm
      by_cases hpersistent : settings.isPersistent = true
      · rw [if_pos hpersistent] at hm
        cases hlimits : OpenIndexes.ofLimits settings.handleLimit
            (handlesPerIndex settings (inProcessKinds g)) with
        | error fault =>
            rw [hlimits] at hm
            cases hm
        | ok o =>
            rw [hlimits] at hm
            cases hm
            refine ⟨some o, rfl, by simp, ?_⟩
            rintro o' ⟨⟩
            rfl
      · rw [if_neg hpersistent] at hm
        cases hm
        refine ⟨none, rfl, fun h => (hpersistent h).elim, ?_⟩
        rintro o ⟨⟩

/-! ## Records and the rows that they come from -/

def Deployment.Serves : Deployment → Record → Record → Prop
  | .inProcess _, row, r => r = row
  | .distributed _, row, r => ∃ endpoint, r = row.withEntry Record.endpointKey (.text endpoint)

namespace Deployment.Serves

variable {d : Deployment} {row r : Record}

theorem id_eq (h : d.Serves row r) : r.id = row.id := by
  cases d with
  | inProcess settings => exact congrArg Record.id h
  | distributed workers => obtain ⟨endpoint, rfl⟩ := h; rfl

theorem kind_eq (h : d.Serves row r) : r.kind = row.kind := by
  cases d with
  | inProcess settings => exact congrArg Record.kind h
  | distributed workers => obtain ⟨endpoint, rfl⟩ := h; rfl

theorem scope_eq (h : d.Serves row r) : r.scope = row.scope := by
  cases d with
  | inProcess settings => exact congrArg Record.scope h
  | distributed workers => obtain ⟨endpoint, rfl⟩ := h; rfl

theorem collection_eq (h : d.Serves row r) : r.collection = row.collection := by
  cases d with
  | inProcess settings => exact congrArg Record.collection h
  | distributed workers => obtain ⟨endpoint, rfl⟩ := h; rfl

theorem withMembers {m : Manager} (h : m.deployment.Serves row r) (members : List String) :
    (m.withMembers members).deployment.Serves row r := by
  unfold Manager.withMembers
  cases hdeployment : m.deployment with
  | inProcess settings => exact h
  | distributed workers =>
      rw [hdeployment] at h
      exact h

end Deployment.Serves

theorem Manager.serves_of_complete {m : Manager} {row r : Record}
    (hcomplete : m.complete row = .ok r) : m.deployment.Serves row r := by
  unfold complete at hcomplete
  cases hdeployment : m.deployment with
  | inProcess settings =>
      simp only [hdeployment, Except.ok.injEq] at hcomplete
      exact hcomplete.symm
  | distributed workers =>
      simp only [hdeployment] at hcomplete
      cases hendpoint : workers.endpoint row.collection with
      | error fault => simp [hendpoint, Except.map] at hcomplete
      | ok endpoint =>
          simp only [hendpoint, Except.map, Except.ok.injEq] at hcomplete
          exact ⟨endpoint, hcomplete.symm⟩

/-- The record is what the manager makes of one of the rows for a capability of
a collection. -/
structure Manager.Admits (m : Manager) (rows : List Record) (k : Capability) (c : CollectionId)
    (r : Record) : Prop where
  served : ∃ row ∈ rows, m.deployment.Serves row r
  collection : r.collection = c
  scope : r.scope = k.scope
  known : m.kinds.knows r.kind = true

namespace Manager.Admits

variable {m m' : Manager} {rows rows' : List Record} {k j : Capability} {c d : CollectionId}
  {r r' : Record}

theorem mono (h : m.Admits rows k c r) (hsub : ∀ row ∈ rows, row ∈ rows') :
    m.Admits rows' k c r := by
  obtain ⟨row, hrow, hserves⟩ := h.served
  exact ⟨⟨row, hsub row hrow, hserves⟩, h.collection, h.scope, h.known⟩

theorem congr (h : m.Admits rows k c r) (hsetup : SameSetup m m') : m'.Admits rows k c r :=
  ⟨hsetup.deployment ▸ h.served, h.collection, h.scope, hsetup.kinds ▸ h.known⟩

/-- Where no two rows share a segment, a segment serves one capability of one
collection. -/
theorem place_eq (hids : (rows.map (·.id)).Nodup) (h : m.Admits rows k c r)
    (h' : m.Admits rows j d r') (hid : r.id = r'.id) : k = j ∧ c = d := by
  obtain ⟨row, hrow, hserves⟩ := h.served
  obtain ⟨row', hrow', hserves'⟩ := h'.served
  have hsame : row = row' := by
    apply List.inj_on_of_nodup_map hids hrow hrow'
    rw [← hserves.id_eq, ← hserves'.id_eq, hid]
  subst hsame
  constructor
  · have hscope : k.scope = j.scope := by
      rw [← h.scope, ← h'.scope, hserves.scope_eq, hserves'.scope_eq]
    cases k <;> cases j <;> first | rfl | cases hscope
  · rw [← h.collection, ← h'.collection, hserves.collection_eq, hserves'.collection_eq]

end Manager.Admits

end SegmentManager
