import NexusOs.Lib.Transition
import NexusOs.Workspace.Registry

/-!
# Delegated authority stays within its root

Every sequence of calls of a registry, from the empty one, with any readings of the clock and any
answers of the file system. A grant is stored beneath the grant it was narrowed from and never
changes but for being revoked (`Onward`), so what holds between a grant and its parent holds along
the whole chain to its root. Read `delegation_stays_within` first.
-/

namespace NexusOs.Workspace

open Transition Option Registry

/-! ## Calls and their answers -/

variable {fuel : Nat} {u : Unit} {grants' : Grants}

/-- A call of the registry, with what it reads outside. -/
inductive Call where
  | issueTrustedRoot (root : Lookup) (binding : WorkspaceBinding)
      (source : WorkspaceAuthoritySource) (permission : FsPermissionLevel)
      (expiresAt : Option SystemTime) (now : SystemTime) (draws : List Uuid)
  | resolve (id : WorkspaceGrantId) (binding : WorkspaceBinding) (now : SystemTime)
  | narrow (parent : WorkspaceGrantId) (parentBinding : WorkspaceBinding) (childAgentId : Uuid)
      (root : Lookup) (permission : FsPermissionLevel) (now later : SystemTime)
      (draws : List Uuid)
  | revoke (id : WorkspaceGrantId) (binding : WorkspaceBinding) (now : SystemTime)

/-- What a call returns. -/
inductive Answer where
  | granted (result : Except WorkspaceAuthorityError WorkspaceGrantId)
  | resolved (result : Except WorkspaceAuthorityError WorkspaceGrant)
  | revoked (result : Except WorkspaceAuthorityError Unit)

/-- A call that returned. -/
structure Event where
  call : Call
  answer : Answer

/-- The answer of a call and the registry after it. -/
def Registry.run (r : Registry) : Call → Option (Answer × Registry)
  | .issueTrustedRoot root binding source permission expiresAt now draws =>
    (r.issueTrustedRoot root binding source permission expiresAt now draws).map fun a =>
      (.granted a.1, a.2)
  | .resolve id binding now => (r.resolve id binding now).map fun a => (.resolved a, r)
  | .narrow parent parentBinding childAgentId root permission now later draws =>
    (r.narrow parent parentBinding childAgentId root permission now later draws).map fun a =>
      (.granted a.1, a.2)
  | .revoke id binding now =>
    let a := r.revoke id binding now
    some (.revoked a.1, a.2)

/-- One call that returns. -/
def Step (r : Registry) (e : Event) (r' : Registry) : Prop := r.run e.call = some (e.answer, r')

/-- The grant that the event issued, and to whom. -/
def Event.issued : Event → Option (WorkspaceGrantId × WorkspaceBinding)
  | ⟨.issueTrustedRoot _ binding _ _ _ _ _, .granted (.ok id)⟩ => some (id, binding)
  | ⟨.narrow _ parentBinding childAgentId _ _ _ _ _, .granted (.ok id)⟩ =>
    some (id, ⟨childAgentId, parentBinding.runId⟩)
  | _ => none

/-- The grant that the event used with success, and the binding it was used with: it was resolved
or narrowed. -/
def Event.used : Event → Option (WorkspaceGrantId × WorkspaceBinding)
  | ⟨.resolve id binding _, .resolved (.ok _)⟩ => some (id, binding)
  | ⟨.narrow parent parentBinding _ _ _ _ _ _, .granted (.ok _)⟩ => some (parent, parentBinding)
  | _ => none

/-- The grant that the event revoked. -/
def Event.revoked : Event → Option WorkspaceGrantId
  | ⟨.revoke id _ _, .revoked (.ok ())⟩ => some id
  | _ => none

/-- The readings of the clock that a use was checked at. -/
def Event.readings : Event → List SystemTime
  | ⟨.resolve _ _ now, _⟩ => [now]
  | ⟨.narrow _ _ _ _ _ now later _, _⟩ => [now, later]
  | _ => []

/-! ## Chains of parents -/

/-- The grants from a grant to its root. -/
inductive Lineage (grants : Grants) : WorkspaceGrant → List WorkspaceGrant → Prop where
  | root {g : WorkspaceGrant} : g.parent = none → Lineage grants g [g]
  | child {g a : WorkspaceGrant} {p : WorkspaceGrantId} {chain : List WorkspaceGrant} :
      g.parent = some p → grants.get? p = some a → Lineage grants a chain →
      Lineage grants g (g :: chain)

/-- The second id is the first one or the id of one of its ancestors. -/
inductive Descends (grants : Grants) : WorkspaceGrantId → WorkspaceGrantId → Prop where
  | self (id : WorkspaceGrantId) : Descends grants id id
  | up {id p above : WorkspaceGrantId} {g : WorkspaceGrant} :
      grants.get? id = some g → g.parent = some p → Descends grants p above →
      Descends grants id above

/-- The authority of the first grant is within that of the second. -/
structure Within (g a : WorkspaceGrant) : Prop where
  root : a.root <+: g.root
  permission : permissionIsSubset g.permission a.permission
  run : g.binding.runId = a.binding.runId
  expiry : g.expiresAt = a.expiresAt

theorem permissionIsSubset_refl (p : FsPermissionLevel) : permissionIsSubset p p := by
  cases p <;> rfl

theorem permissionIsSubset_trans {p q r : FsPermissionLevel} (h : permissionIsSubset p q)
    (h' : permissionIsSubset q r) : permissionIsSubset p r := by
  cases p <;> cases q <;> cases r <;> simp_all [permissionIsSubset]

theorem Within.refl (g : WorkspaceGrant) : Within g g :=
  ⟨List.prefix_rfl, permissionIsSubset_refl _, rfl, rfl⟩

theorem Within.trans {g a b : WorkspaceGrant} (h : Within g a) (h' : Within a b) : Within g b :=
  ⟨h'.root.trans h.root, permissionIsSubset_trans h.permission h'.permission,
    h.run.trans h'.run, h.expiry.trans h'.expiry⟩

/-- What the stored grants satisfy: a grant with a parent was stored after it, and is within it. -/
structure Sound (grants : Grants) (rank : WorkspaceGrantId → Nat) : Prop where
  bounded : ∀ {id g}, grants.get? id = some g → rank id < grants.size
  parent : ∀ {id g p}, grants.get? id = some g → g.parent = some p →
    ∃ a, grants.get? p = some a ∧ rank p < rank id ∧ Within g a

namespace Sound

variable {grants : Grants} {rank : WorkspaceGrantId → Nat} {id above : WorkspaceGrantId}
  {g a : WorkspaceGrant}

/-- Every chain of parents ends in a root. -/
theorem lineage (h : Sound grants rank) (hg : grants.get? id = some g) :
    ∃ chain, Lineage grants g chain := by
  -- the parent was stored earlier, so the rank decreases along the chain
  induction hn : rank id using Nat.strong_induction_on generalizing id g with
  | _ n ih =>
    cases hp : g.parent with
    | none => exact ⟨_, .root hp⟩
    | some p =>
      obtain ⟨a, ha, hlt, -⟩ := h.parent hg hp
      obtain ⟨chain, hchain⟩ := ih (rank p) (hn ▸ hlt) ha rfl
      exact ⟨_, .child hp ha hchain⟩

/-- The walk to the root ends within as many rounds as there are grants. -/
theorem walk_isSome (h : Sound grants rank) {now : SystemTime} (hg : grants.get? id = some g)
    (hfuel : rank id < fuel) : (walk grants now fuel g).isSome := by
  induction fuel generalizing id g with
  | zero => omega
  | succ fuel ih =>
    unfold walk
    split
    · rfl
    split
    · rfl
    split
    · rfl
    next p hp =>
    obtain ⟨a, ha, hlt, -⟩ := h.parent hg hp
    rw [ha]
    exact ih ha (by omega)

/-- A grant is within each of its ancestors. -/
theorem within (h : Sound grants rank) (hd : Descends grants id above)
    (hg : grants.get? id = some g) (ha : grants.get? above = some a) : Within g a := by
  induction hd generalizing g with
  | self =>
    obtain rfl := some.inj (hg.symm.trans ha)
    exact .refl g
  | up hid hp _ ih =>
    obtain rfl := some.inj (hg.symm.trans hid)
    obtain ⟨b, hb, -, hwithin⟩ := h.parent hg hp
    exact hwithin.trans (ih hb ha)

end Sound

variable {grants : Grants} {id above : WorkspaceGrantId} {g a : WorkspaceGrant}
  {binding : WorkspaceBinding} {now : SystemTime} {r r' : Registry} {e : Event}

theorem verifyBinding_eq_ok (h : verifyBinding g binding = .ok u) : g.binding = binding := by
  simp only [verifyBinding] at h
  split_ifs at h with hagent hrun
  cases hb : g.binding
  simp_all

/-- A walk that reaches the root finds no grant revoked and none expired. -/
theorem walk_eq_ok (h : walk grants now fuel g = some (.ok u)) (hg : grants.get? id = some g)
    (hd : Descends grants id above) (ha : grants.get? above = some a) :
    a.revokedAt = none ∧ a.expired now = false := by
  induction fuel generalizing id g with
  | zero => cases h
  | succ fuel ih =>
    unfold walk at h
    split at h
    · cases h
    next hrevoked =>
    split at h
    · cases h
    next hexpired =>
    cases hd with
    | self =>
      obtain rfl := some.inj (hg.symm.trans ha)
      exact ⟨by simpa using hrevoked, by simpa using hexpired⟩
    | up hid hp hrest =>
      obtain rfl := some.inj (hg.symm.trans hid)
      simp only [hp] at h
      split at h
      · cases h
      · next hfound => exact ih h hfound hrest

/-- An active grant is used with the binding it has, and no grant of its chain is revoked or
expired. -/
theorem activeGrant_eq_ok (h : activeGrant grants id binding now = some (.ok g)) :
    grants.get? id = some g ∧ g.binding = binding ∧
      ∀ above a, Descends grants id above → grants.get? above = some a →
        a.revokedAt = none ∧ a.expired now = false := by
  simp only [activeGrant] at h
  split at h
  · cases h
  next found hfound =>
  split at h
  · cases h
  next hbinding =>
  simp only [map_eq_some_iff] at h
  obtain ⟨checked, hwalk, hchecked⟩ := h
  cases checked with
  | error => cases hchecked
  | ok =>
    obtain rfl : found = g := by cases hchecked; rfl
    exact ⟨hfound, verifyBinding_eq_ok hbinding, fun above a hd ha => walk_eq_ok hwalk hfound hd ha⟩

/-! ## What a call does -/

theorem unusedId_eq_some {draws : List Uuid} (h : unusedId grants draws = some id) :
    grants.get? id = none := by
  have hunused := List.find?_some h
  simpa using hunused

/-- A call that issues a grant stores it under an unused id, as a root or within its parent. -/
structure Issues (r : Registry) (g : WorkspaceGrant) (r' : Registry) : Prop where
  unused : r.grants.get? g.id = none
  stored : r' = r.store g
  parent : ∀ p, g.parent = some p → ∃ found, r.grants.get? p = some found ∧ Within g found

section

variable {source : WorkspaceAuthoritySource} {permission : FsPermissionLevel} {draws : List Uuid}
  {answer : Except WorkspaceAuthorityError WorkspaceGrantId} {parent : WorkspaceGrantId}
  {parentBinding : WorkspaceBinding} {later : SystemTime} {root : Lookup}

theorem issueTrustedRoot_cases {expiresAt : Option SystemTime}
    (h : r.issueTrustedRoot root binding source permission expiresAt now draws =
      some (answer, r')) :
    (∃ error, answer = .error error ∧ r' = r) ∨
      ∃ g, answer = .ok g.id ∧ g.binding = binding ∧ Issues r g r' := by
  unfold issueTrustedRoot at h
  split at h
  · cases h
    exact .inl ⟨_, rfl, rfl⟩
  · split at h
    · cases h
      exact .inl ⟨_, rfl, rfl⟩
    split at h
    · cases h
      exact .inl ⟨_, rfl, rfl⟩
    · split at h
      · cases h
        exact .inl ⟨_, rfl, rfl⟩
      split at h
      · cases h
        exact .inl ⟨_, rfl, rfl⟩
      obtain ⟨id, hid, heq⟩ := map_eq_some_iff.mp h
      cases heq
      refine .inr ⟨_, rfl, rfl, unusedId_eq_some hid, rfl, ?_⟩
      intro p hp
      cases hp

theorem storeChild_cases {path : CanonicalPath} {found : WorkspaceGrant}
    (h : r.storeChild parent parentBinding binding path permission later draws = some (answer, r'))
    (hfound : r.grants.get? parent = some found) (hroot : found.root <+: path)
    (hpermission : permissionIsSubset permission found.permission)
    (hrun : binding.runId = parentBinding.runId) :
    (∃ error, answer = .error error ∧ r' = r) ∨
      ∃ g, answer = .ok g.id ∧ g.binding = binding ∧ Issues r g r' ∧
        activeGrant r.grants parent parentBinding later = some (.ok found) := by
  unfold storeChild at h
  split at h
  · cases h
  · cases h
    exact .inl ⟨_, rfl, rfl⟩
  · next found' hactive =>
    obtain ⟨hget, hbinding, -⟩ := activeGrant_eq_ok hactive
    obtain rfl := some.inj (hfound.symm.trans hget)
    obtain ⟨id, hid, heq⟩ := map_eq_some_iff.mp h
    cases heq
    refine .inr ⟨_, rfl, rfl, ⟨unusedId_eq_some hid, rfl, ?_⟩, hactive⟩
    intro p hp
    obtain rfl := some.inj hp
    exact ⟨found, hfound, hroot, hpermission, by rw [hbinding]; exact hrun, rfl⟩

theorem narrow_cases {childAgentId : Uuid}
    (h : r.narrow parent parentBinding childAgentId root permission now later draws =
      some (answer, r')) :
    (∃ error, answer = .error error ∧ r' = r) ∨
      ∃ g found, answer = .ok g.id ∧ g.binding = ⟨childAgentId, parentBinding.runId⟩ ∧
        Issues r g r' ∧ activeGrant r.grants parent parentBinding now = some (.ok found) ∧
        activeGrant r.grants parent parentBinding later = some (.ok found) := by
  simp only [narrow] at h
  split at h
  · cases h
    exact .inl ⟨_, rfl, rfl⟩
  · split at h
    · cases h
      exact .inl ⟨_, rfl, rfl⟩
    split at h
    · cases h
    · cases h
      exact .inl ⟨_, rfl, rfl⟩
    · next found hactive =>
      obtain ⟨hget, -⟩ := activeGrant_eq_ok hactive
      unfold narrowFrom at h
      split at h
      · cases h
        exact .inl ⟨_, rfl, rfl⟩
      next hpermission =>
      split at h
      · cases h
        exact .inl ⟨_, rfl, rfl⟩
      · split at h
        · cases h
          exact .inl ⟨_, rfl, rfl⟩
        next hroot =>
        refine (storeChild_cases h hget ?_ ?_ rfl).imp_right ?_
        · simpa using hroot
        · simpa using hpermission
        · rintro ⟨g, hanswer, hbinding, hissues, hlater⟩
          exact ⟨g, found, hanswer, hbinding, hissues, hactive, hlater⟩

end

theorem revoke_cases {answer : Except WorkspaceAuthorityError Unit}
    (h : r.revoke id binding now = (answer, r')) :
    (∃ error, answer = .error error ∧ r' = r) ∨
      ∃ g, r.grants.get? id = some g ∧ answer = .ok () ∧
        r' = { r with grants := r.grants.modify id (·.revoke now) } := by
  unfold revoke at h
  split at h
  · cases h
    exact .inl ⟨_, rfl, rfl⟩
  split at h
  · cases h
    exact .inl ⟨_, rfl, rfl⟩
  next g hg =>
  split at h
  · cases h
    exact .inl ⟨_, rfl, rfl⟩
  · cases h
    exact .inr ⟨g, hg, rfl, rfl⟩

/-- What a call that returns does to the registry: it issues a grant, revokes one, or leaves the
registry as it is. -/
theorem Step.cases (h : Step r e r') :
    (∃ g, e.issued = some (g.id, g.binding) ∧ e.revoked = none ∧ Issues r g r') ∨
      (∃ id g now, e.issued = none ∧ e.revoked = some id ∧ r.grants.get? id = some g ∧
        r' = { r with grants := r.grants.modify id (·.revoke now) }) ∨
      (e.issued = none ∧ e.revoked = none ∧ r' = r) := by
  obtain ⟨call, answer⟩ := e
  cases call with
  | issueTrustedRoot root binding source permission expiresAt now draws =>
    obtain ⟨⟨a, r''⟩, ha, heq⟩ := map_eq_some_iff.mp h
    cases heq
    rcases issueTrustedRoot_cases ha with ⟨error, rfl, rfl⟩ | ⟨g, rfl, rfl, hissues⟩
    · exact .inr (.inr ⟨rfl, rfl, rfl⟩)
    · exact .inl ⟨g, rfl, rfl, hissues⟩
  | resolve id binding now =>
    obtain ⟨a, ha, heq⟩ := map_eq_some_iff.mp h
    cases heq
    exact .inr (.inr ⟨rfl, rfl, rfl⟩)
  | narrow parent parentBinding childAgentId root permission now later draws =>
    obtain ⟨⟨a, r''⟩, ha, heq⟩ := map_eq_some_iff.mp h
    cases heq
    rcases narrow_cases ha with ⟨error, rfl, rfl⟩ | ⟨g, found, rfl, hbinding, hissues, -⟩
    · exact .inr (.inr ⟨rfl, rfl, rfl⟩)
    · exact .inl ⟨g, by rw [hbinding]; rfl, rfl, hissues⟩
  | revoke id binding now =>
    obtain ⟨a, r'', hrevoke⟩ : ∃ a r'', r.revoke id binding now = (a, r'') := ⟨_, _, rfl⟩
    simp only [Step, run, hrevoke] at h
    obtain ⟨rfl, rfl⟩ := h
    rcases revoke_cases hrevoke with ⟨error, rfl, rfl⟩ | ⟨g, hg, rfl, rfl⟩
    · exact .inr (.inr ⟨rfl, rfl, rfl⟩)
    · exact .inr (.inl ⟨id, g, now, rfl, rfl, hg, rfl⟩)

/-- A use that succeeds is of an active grant, at every reading of the clock it was checked at. -/
theorem Step.used (h : Step r e r') (huse : e.used = some (id, binding)) :
    e.readings ≠ [] ∧
      ∃ g, ∀ now ∈ e.readings, activeGrant r.grants id binding now = some (.ok g) := by
  obtain ⟨call, answer⟩ := e
  cases call with
  | issueTrustedRoot | revoke => cases huse
  | resolve id' binding' now =>
    obtain ⟨a, ha, heq⟩ := map_eq_some_iff.mp h
    cases heq
    cases a with
    | error => cases huse
    | ok g =>
      cases huse
      unfold resolve at ha
      split at ha
      · cases ha
      · exact ⟨by simp [Event.readings], g, by simpa [Event.readings] using ha⟩
  | narrow parent parentBinding childAgentId root permission now later draws =>
    obtain ⟨⟨a, r''⟩, ha, heq⟩ := map_eq_some_iff.mp h
    cases heq
    rcases narrow_cases ha with ⟨error, rfl, rfl⟩ | ⟨g, found, rfl, -, -, hnow, hlater⟩
    · cases huse
    · cases huse
      exact ⟨by simp [Event.readings], found, by simp [Event.readings, hnow, hlater]⟩

/-! ## What a run keeps -/

/-- A later registry has every grant of an earlier one, unchanged but for a revocation, which
stays. -/
def Onward (grants grants' : Grants) : Prop :=
  ∀ id g, grants.get? id = some g → ∃ revokedAt,
    grants'.get? id = some { g with revokedAt } ∧ (g.revokedAt.isSome → revokedAt.isSome)

theorem Onward.refl (grants : Grants) : Onward grants grants := fun _ g hg => ⟨g.revokedAt, hg, id⟩

theorem Onward.trans {grants grants'' : Grants} (h : Onward grants grants')
    (h' : Onward grants' grants'') : Onward grants grants'' := by
  intro id g hg
  obtain ⟨revokedAt, hg', hstays⟩ := h id g hg
  obtain ⟨revokedAt', hg'', hstays'⟩ := h' id _ hg'
  exact ⟨revokedAt', hg'', fun hrevoked => hstays' (hstays hrevoked)⟩

theorem onward_store (hunused : r.grants.get? g.id = none) :
    Onward r.grants (r.store g).grants := by
  intro id g' hg'
  have hne : id ≠ g.id := by
    rintro rfl
    rw [hunused] at hg'
    cases hg'
  exact ⟨g'.revokedAt, by simp [store, hne, hg'], fun h => h⟩

theorem onward_revoke : Onward grants (grants.modify id (·.revoke now)) := by
  intro id' g hg
  by_cases hid : id' = id
  · subst hid
    exact ⟨some (g.revokedAt.getD now), by simp [hg, WorkspaceGrant.revoke], fun _ => rfl⟩
  · exact ⟨g.revokedAt, by simp [hid, hg], fun h => h⟩

theorem Step.onward (h : Step r e r') : Onward r.grants r'.grants := by
  rcases h.cases with ⟨g, -, -, hissues⟩ | ⟨id, g, now, -, -, -, rfl⟩ | ⟨-, -, rfl⟩
  · exact hissues.stored ▸ onward_store hissues.unused
  · exact onward_revoke
  · exact .refl _

variable {events : List Event}

theorem run_onward (h : Run Step r events r') : Onward r.grants r'.grants :=
  h.relates (fun r r' => Onward r.grants r'.grants) (fun _ => .refl _) Onward.trans Step.onward

/-- A grant of the revoked table is a grant of the table. -/
theorem get?_revoke {id' : WorkspaceGrantId} {g' : WorkspaceGrant}
    (h : (grants.modify id (·.revoke now)).get? id' = some g') :
    ∃ g, grants.get? id' = some g ∧ (g' = g ∨ g' = g.revoke now) := by
  rw [Table.get?_modify] at h
  split at h
  · obtain ⟨g, hg, rfl⟩ := map_eq_some_iff.mp h
    exact ⟨g, hg, .inr rfl⟩
  · exact ⟨g', h, .inl rfl⟩

variable {rank : WorkspaceGrantId → Nat}

/-- A new grant is stored after every other. -/
theorem Sound.store (h : Sound r.grants rank)
    (hissues : Issues r g r') : Sound r'.grants (Function.update rank g.id r.grants.size) := by
  obtain ⟨hunused, rfl, hparent⟩ := hissues
  have hne : ∀ {id g'}, r.grants.get? id = some g' → id ≠ g.id := by
    rintro id g' hg' rfl
    rw [hunused] at hg'
    cases hg'
  have hsize : (r.store g).grants.size = r.grants.size + 1 := Table.size_insert hunused
  constructor
  · intro id g' hg'
    rw [hsize]
    by_cases hid : id = g.id
    · subst hid
      simp
    · have hold : r.grants.get? id = some g' := by simpa [store, hid] using hg'
      rw [Function.update_of_ne hid]
      exact Nat.lt_succ_of_lt (h.bounded hold)
  · intro id g' p hg' hp
    by_cases hid : id = g.id
    · subst hid
      obtain rfl : g = g' := by simpa [store] using hg'
      obtain ⟨found, hfound, hwithin⟩ := hparent p hp
      refine ⟨found, by simpa [store, hne hfound] using hfound, ?_, hwithin⟩
      rw [Function.update_self, Function.update_of_ne (hne hfound)]
      exact h.bounded hfound
    · have hold : r.grants.get? id = some g' := by simpa [store, hid] using hg'
      obtain ⟨found, hfound, hlt, hwithin⟩ := h.parent hold hp
      refine ⟨found, by simpa [store, hne hfound] using hfound, ?_, hwithin⟩
      rwa [Function.update_of_ne hid, Function.update_of_ne (hne hfound)]

/-- A revocation changes no chain. -/
theorem Sound.revoke (h : Sound grants rank) : Sound (grants.modify id (·.revoke now)) rank := by
  constructor
  · intro id' g' hg'
    obtain ⟨g, hg, -⟩ := get?_revoke hg'
    rw [Table.size_modify]
    exact h.bounded hg
  · intro id' g' p hg' hp
    obtain ⟨g, hg, hsame⟩ := get?_revoke hg'
    have hgp : g.parent = some p := by rcases hsame with rfl | rfl <;> exact hp
    obtain ⟨found, hfound, hlt, hwithin⟩ := h.parent hg hgp
    obtain ⟨revokedAt, hfound', -⟩ := onward_revoke p found hfound
    refine ⟨_, hfound', hlt, ?_⟩
    rcases hsame with rfl | rfl
    · exact ⟨hwithin.root, hwithin.permission, hwithin.run, hwithin.expiry⟩
    · exact ⟨hwithin.root, hwithin.permission, hwithin.run, hwithin.expiry⟩

theorem Step.sound (hsound : ∃ rank, Sound r.grants rank) (h : Step r e r') :
    ∃ rank, Sound r'.grants rank := by
  obtain ⟨rank, hrank⟩ := hsound
  rcases h.cases with ⟨g, -, -, hissues⟩ | ⟨id, g, now, -, -, -, rfl⟩ | ⟨-, -, rfl⟩
  · exact ⟨_, hrank.store hissues⟩
  · exact ⟨rank, hrank.revoke⟩
  · exact ⟨rank, hrank⟩

theorem run_sound (h : Run Step {} events r) : ∃ rank, Sound r.grants rank :=
  h.invariant Step.sound ⟨fun _ => 0, fun h => by simp at h, fun h => by simp at h⟩

/-- A grant keeps its chain: what is above it later was above it before. -/
theorem Descends.earlier (hsound : Sound grants rank) (honward : Onward grants grants')
    (hd : Descends grants' id above) (hg : grants.get? id = some g) : Descends grants id above := by
  induction hd generalizing g with
  | self => exact .self _
  | up hid hp _ ih =>
    obtain ⟨revokedAt, hg', -⟩ := honward _ g hg
    obtain rfl := some.inj (hid.symm.trans hg')
    obtain ⟨a, ha, -⟩ := hsound.parent hg hp
    exact .up hg hp (ih ha)

/-! ## Every sequence of calls -/

/-- A grant has the binding it was issued to. -/
theorem run_issued (h : Run Step {} events r) (hmem : e ∈ events)
    (hissued : e.issued = some (id, binding)) (hg : r.grants.get? id = some g) :
    g.binding = binding := by
  obtain ⟨before, after, source, target, -, -, hstep, hafter⟩ := h.of_mem hmem
  rcases hstep.cases with ⟨g', hg', -, -, rfl, -⟩ | ⟨_, _, _, hnone, -⟩ | ⟨hnone, -⟩
  · obtain ⟨rfl, rfl⟩ := Prod.mk.inj (some.inj (hissued.symm.trans hg'))
    have hstored : (source.store g').grants.get? g'.id = some g' := by simp [store]
    obtain ⟨revokedAt, hlast, -⟩ := run_onward hafter _ _ hstored
    obtain rfl := some.inj (hg.symm.trans hlast)
    rfl
  · rw [hnone] at hissued
    cases hissued
  · rw [hnone] at hissued
    cases hissued

/-- Once a grant is revoked, neither it nor what descends from it is used again. -/
theorem run_revoked {before after : List Event} {revocation : Event}
    (h : Run Step {} (before ++ revocation :: after) r) (hrevoked : revocation.revoked = some id)
    (hmem : e ∈ after) {used : WorkspaceGrantId} (huse : e.used = some (used, binding)) :
    ¬ Descends r.grants used id := by
  intro hd
  obtain ⟨source, hbefore, hrest⟩ := Run.append_iff.mp h
  obtain ⟨target, hrevocation, hafter⟩ := Run.cons_iff.mp hrest
  obtain ⟨early, late, middle, next, -, hearly, hstep, hlate⟩ := hafter.of_mem hmem
  obtain ⟨rank, hsound⟩ := run_sound (hbefore.append (.cons hrevocation hearly))
  -- the grant was active, with its whole chain, when it was used
  obtain ⟨hreadings, g, hactive⟩ := hstep.used huse
  obtain ⟨now, hnow⟩ := List.exists_mem_of_ne_nil _ hreadings
  obtain ⟨hg, -, hchain⟩ := activeGrant_eq_ok (hactive now hnow)
  have hd := hd.earlier hsound (hstep.onward.trans (run_onward hlate)) hg
  -- but the revoked grant was in that chain
  rcases hrevocation.cases with ⟨_, -, hnone, -⟩ | ⟨id', a, now', -, hid', ha, rfl⟩ | ⟨-, hnone, -⟩
  · rw [hnone] at hrevoked
    cases hrevoked
  · obtain rfl := some.inj (hrevoked.symm.trans hid')
    obtain ⟨revokedAt, ha', hstays⟩ := run_onward hearly id (a.revoke now') (by simp [ha])
    have hsome : revokedAt.isSome := hstays rfl
    obtain rfl : revokedAt = none := (hchain id _ hd ha').1
    cases hsome
  · rw [hnone] at hrevoked
    cases hrevoked

/-- Delegated authority never exceeds its root, and a revocation reaches every descendant: in
every sequence of calls of a registry, whatever the clock reads and the file system answers. -/
theorem delegation_stays_within {events : List Event} (h : Run Step {} events r) :
    (∀ id g, r.grants.get? id = some g → ∃ chain, Lineage r.grants g chain) ∧
    (∀ id binding now, activeGrant r.grants id binding now ≠ none) ∧
    (∀ id above g a, r.grants.get? id = some g → Descends r.grants id above →
      r.grants.get? above = some a → Within g a) ∧
    (∀ e r' id binding, Step r e r' → e.used = some (id, binding) →
      (∃ g, r.grants.get? id = some g ∧ g.binding = binding) ∧
      (∀ issue ∈ events, ∀ grantee, issue.issued = some (id, grantee) → grantee = binding) ∧
      ∀ above a, Descends r.grants id above → r.grants.get? above = some a →
        a.revokedAt = none ∧ ∀ now ∈ e.readings, a.expired now = false) ∧
    ∀ before after revocation id, events = before ++ revocation :: after →
      revocation.revoked = some id → ∀ e ∈ after, ∀ used binding,
        e.used = some (used, binding) → ¬ Descends r.grants used id := by
  obtain ⟨rank, hsound⟩ := run_sound h
  refine ⟨fun id g hg => hsound.lineage hg, ?_, fun id above g a hg hd ha => hsound.within hd hg ha,
    ?_, ?_⟩
  · intro id binding now hnone
    unfold activeGrant at hnone
    split at hnone
    · cases hnone
    next g hg =>
    split at hnone
    · cases hnone
    have hends : (walk r.grants now r.grants.size g).isSome :=
      hsound.walk_isSome hg (hsound.bounded hg)
    rw [map_eq_none_iff.mp hnone] at hends
    cases hends
  · intro e r' id binding hstep huse
    obtain ⟨hreadings, g, hactive⟩ := hstep.used huse
    obtain ⟨now, hnow⟩ := List.exists_mem_of_ne_nil _ hreadings
    obtain ⟨hg, hbinding, hchain⟩ := activeGrant_eq_ok (hactive now hnow)
    refine ⟨⟨g, hg, hbinding⟩, ?_, ?_⟩
    · intro issue hissue grantee hgrantee
      exact (run_issued h hissue hgrantee hg).symm.trans hbinding
    intro above a hd ha
    refine ⟨(hchain above a hd ha).1, fun now' hnow' => ?_⟩
    obtain ⟨-, -, hchain'⟩ := activeGrant_eq_ok (hactive now' hnow')
    exact (hchain' above a hd ha).2
  · rintro before after revocation id rfl hrevoked e hmem used binding huse
    exact run_revoked h hrevoked hmem huse

/-- A root grant, a grant narrowed from it, and the revocation of the root, while the clock goes
back. -/
def sampleEvents : List Event :=
  [⟨.issueTrustedRoot ⟨true, some ["srv"], true⟩ ⟨7, 9⟩ .userSelected .readWrite (some 50) 10
      [1], .granted (.ok 1)⟩,
    ⟨.narrow 1 ⟨7, 9⟩ 8 ⟨true, some ["srv", "site"], true⟩ .readOnly 12 11 [1, 2],
      .granted (.ok 2)⟩,
    ⟨.revoke 1 ⟨7, 9⟩ 5, .revoked (.ok ())⟩,
    ⟨.resolve 2 ⟨8, 9⟩ 13, .resolved (.error .revokedGrant)⟩]

theorem sample_delegation_stays_within :
    ∃ r, Run Step {} sampleEvents r ∧
      ((r.grants.get? 2).map fun g => (g.parent, g.expiresAt)) = some (some 1, some 50) ∧
      ∀ e ∈ sampleEvents.drop 3, ∀ used binding, e.used = some (used, binding) →
        ¬ Descends r.grants used 1 := by
  have hrun : ∃ r, Run Step {} sampleEvents r ∧
      ((r.grants.get? 2).map fun g => (g.parent, g.expiresAt)) = some (some 1, some 50) := by
    refine ⟨_, .cons rfl (.cons rfl (.cons rfl (.cons rfl (.nil _)))), ?_⟩
    decide
  obtain ⟨r, hrun, hchild⟩ := hrun
  obtain ⟨-, -, -, -, hrevoked⟩ := delegation_stays_within hrun
  exact ⟨r, hrun, hchild,
    hrevoked (sampleEvents.take 2) (sampleEvents.drop 3) ⟨.revoke 1 ⟨7, 9⟩ 5, .revoked (.ok ())⟩ 1
      rfl rfl⟩

end NexusOs.Workspace
