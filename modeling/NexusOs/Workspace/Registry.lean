import NexusOs.Lib.Table
import NexusOs.Lib.Utf8

/-!
# The registry of workspace grants

`WorkspaceAuthorityRegistry` of `workspace_authority.rs`. What a call reads outside the registry is
given with it: what the path looks like on disk, the readings of the wall clock, and the ids that
are drawn until one is unused. A call that never returns answers `none`: the walk to the root of a
grant may not end, and no drawn id may be unused.
-/

namespace NexusOs.Workspace

open Utf8

/-- `Uuid`. -/
abbrev Uuid := Nat

/-- `Uuid::is_nil`. -/
def Uuid.isNil (id : Uuid) : Bool := id = 0

/-- `WorkspaceGrantId`. -/
abbrev WorkspaceGrantId := Uuid

/-- `SystemTime`; a clock may read a time before the epoch. -/
abbrev SystemTime := Int

/-- `WorkspaceBinding`. -/
structure WorkspaceBinding where
  agentId : Uuid
  runId : Uuid
  deriving DecidableEq

/-- `WorkspaceAuthoritySource`. -/
inductive WorkspaceAuthoritySource where
  | backendAllocated
  | userSelected
  | parentGrant
  deriving DecidableEq

/-- `FsPermissionLevel`. -/
inductive FsPermissionLevel where
  | readOnly
  | readWrite
  | deny
  deriving DecidableEq

/-- The components of a canonical absolute path. -/
abbrev CanonicalPath := List Text

/-- `WorkspaceGrant`. -/
structure WorkspaceGrant where
  id : WorkspaceGrantId
  root : CanonicalPath
  source : WorkspaceAuthoritySource
  binding : WorkspaceBinding
  permission : FsPermissionLevel
  parent : Option WorkspaceGrantId
  issuedAt : SystemTime
  expiresAt : Option SystemTime
  revokedAt : Option SystemTime
  deriving DecidableEq

/-- `WorkspaceAuthorityError`. -/
inductive WorkspaceAuthorityError where
  | invalidRoot
  | invalidBinding
  | invalidSource
  | invalidExpiry
  | unknownGrant
  | wrongOwner
  | wrongContext
  | revokedGrant
  | expiredGrant
  | rootWidening
  | permissionWidening
  | registryUnavailable
  deriving DecidableEq

/-- The stored grants. -/
abbrev Grants := Table WorkspaceGrantId WorkspaceGrant

/-- `WorkspaceAuthorityRegistry`, with whether its lock is poisoned. -/
structure Registry where
  grants : Grants := Table.empty
  poisoned : Bool := false

/-! ## Checks -/

/-- What a path is on disk: whether it is absolute, what it canonicalizes to, and whether that is
a directory. -/
structure Lookup where
  isAbsolute : Bool
  canonical : Option CanonicalPath
  isDir : Bool

/-- `canonical_directory`. -/
def canonicalDirectory (root : Lookup) : Except WorkspaceAuthorityError CanonicalPath :=
  if !root.isAbsolute then .error .invalidRoot
  else
    match root.canonical with
    | none => .error .invalidRoot
    | some path => if !root.isDir then .error .invalidRoot else .ok path

/-- `validate_binding`. -/
def validateBinding (binding : WorkspaceBinding) : Except WorkspaceAuthorityError Unit :=
  if binding.agentId.isNil || binding.runId.isNil then .error .invalidBinding else .ok ()

/-- `verify_binding`. -/
def verifyBinding (grant : WorkspaceGrant) (binding : WorkspaceBinding) :
    Except WorkspaceAuthorityError Unit :=
  if grant.binding.agentId ≠ binding.agentId then .error .wrongOwner
  else if grant.binding.runId ≠ binding.runId then .error .wrongContext
  else .ok ()

/-- `expires_at.is_some_and(|expiry| expiry <= now)`. -/
def WorkspaceGrant.expired (grant : WorkspaceGrant) (now : SystemTime) : Bool :=
  grant.expiresAt.any (· ≤ now)

/-- The loop of `active_grant`, for as many rounds as `fuel` allows. -/
def walk (grants : Grants) (now : SystemTime) :
    Nat → WorkspaceGrant → Option (Except WorkspaceAuthorityError Unit)
  | 0, _ => none
  | fuel + 1, ancestor =>
    if ancestor.revokedAt.isSome then some (.error .revokedGrant)
    else if ancestor.expired now then some (.error .expiredGrant)
    else
      match ancestor.parent with
      | none => some (.ok ())
      | some parent =>
        match grants.get? parent with
        | none => some (.error .unknownGrant)
        | some ancestor => walk grants now fuel ancestor

/-- `active_grant`. A walk that visits more grants than there are never ends. -/
def activeGrant (grants : Grants) (id : WorkspaceGrantId) (binding : WorkspaceBinding)
    (now : SystemTime) : Option (Except WorkspaceAuthorityError WorkspaceGrant) :=
  match grants.get? id with
  | none => some (.error .unknownGrant)
  | some grant =>
    match verifyBinding grant binding with
    | .error error => some (.error error)
    | .ok () => (walk grants now grants.size grant).map fun checked => checked.map fun () => grant

/-- `permission_is_subset`. -/
def permissionIsSubset : FsPermissionLevel → FsPermissionLevel → Bool
  | .deny, _ | .readOnly, .readOnly | .readOnly, .readWrite | .readWrite, .readWrite => true
  | _, _ => false

/-- `unused_id`: the first drawn id that no grant has. -/
def unusedId (grants : Grants) (draws : List Uuid) : Option WorkspaceGrantId :=
  draws.find? fun id => (grants.get? id).isNone

/-! ## Calls -/

variable (r : Registry)

/-- `grants.insert(id, ..)`. -/
def Registry.store (grant : WorkspaceGrant) : Registry :=
  { r with grants := r.grants.insert grant.id grant }

/-- `WorkspaceAuthorityRegistry::issue_trusted_root`. -/
def Registry.issueTrustedRoot (root : Lookup) (binding : WorkspaceBinding)
    (source : WorkspaceAuthoritySource) (permission : FsPermissionLevel)
    (expiresAt : Option SystemTime) (now : SystemTime) (draws : List Uuid) :
    Option (Except WorkspaceAuthorityError WorkspaceGrantId × Registry) :=
  match validateBinding binding with
  | .error error => some (.error error, r)
  | .ok () =>
    if source = .parentGrant then some (.error .invalidSource, r)
    else
      match canonicalDirectory root with
      | .error error => some (.error error, r)
      | .ok root =>
        if r.poisoned then some (.error .registryUnavailable, r)
        else if expiresAt.any (· ≤ now) then some (.error .invalidExpiry, r)
        else
          (unusedId r.grants draws).map fun id =>
            (.ok id, r.store
              { id, root, source, binding, permission, parent := none, issuedAt := now
                expiresAt, revokedAt := none })

/-- `WorkspaceAuthorityRegistry::resolve`. -/
def Registry.resolve (id : WorkspaceGrantId) (binding : WorkspaceBinding)
    (now : SystemTime) : Option (Except WorkspaceAuthorityError WorkspaceGrant) :=
  if r.poisoned then some (.error .registryUnavailable) else activeGrant r.grants id binding now

/-- `narrow`, once the new root is known to lie beneath the parent's: the parent is checked again
at a later reading of the clock. -/
def Registry.storeChild (parent : WorkspaceGrantId) (parentBinding binding : WorkspaceBinding)
    (root : CanonicalPath) (permission : FsPermissionLevel) (now : SystemTime) (draws : List Uuid) :
    Option (Except WorkspaceAuthorityError WorkspaceGrantId × Registry) :=
  match activeGrant r.grants parent parentBinding now with
  | none => none
  | some (.error error) => some (.error error, r)
  | some (.ok found) =>
    (unusedId r.grants draws).map fun id =>
      (.ok id, r.store
        { id, root, source := .parentGrant, binding, permission, parent := some parent
          issuedAt := now, expiresAt := found.expiresAt, revokedAt := none })

/-- `narrow`, once the parent was found active. -/
def Registry.narrowFrom (found : WorkspaceGrant) (parent : WorkspaceGrantId)
    (parentBinding binding : WorkspaceBinding) (root : Lookup) (permission : FsPermissionLevel)
    (later : SystemTime) (draws : List Uuid) :
    Option (Except WorkspaceAuthorityError WorkspaceGrantId × Registry) :=
  if !permissionIsSubset permission found.permission then some (.error .permissionWidening, r)
  else
    match canonicalDirectory root with
    | .error error => some (.error error, r)
    | .ok root =>
      if !found.root.isPrefixOf root then some (.error .rootWidening, r)
      else r.storeChild parent parentBinding binding root permission later draws

/-- `WorkspaceAuthorityRegistry::narrow`. -/
def Registry.narrow (parent : WorkspaceGrantId) (parentBinding : WorkspaceBinding)
    (childAgentId : Uuid) (root : Lookup) (permission : FsPermissionLevel) (now later : SystemTime)
    (draws : List Uuid) : Option (Except WorkspaceAuthorityError WorkspaceGrantId × Registry) :=
  let binding : WorkspaceBinding := ⟨childAgentId, parentBinding.runId⟩
  match validateBinding binding with
  | .error error => some (.error error, r)
  | .ok () =>
    if r.poisoned then some (.error .registryUnavailable, r)
    else
      match activeGrant r.grants parent parentBinding now with
      | none => none
      | some (.error error) => some (.error error, r)
      | some (.ok found) =>
        r.narrowFrom found parent parentBinding binding root permission later draws

/-- `grant.revoked_at.get_or_insert_with(SystemTime::now)`. -/
def WorkspaceGrant.revoke (grant : WorkspaceGrant) (now : SystemTime) : WorkspaceGrant :=
  { grant with revokedAt := some (grant.revokedAt.getD now) }

/-- `WorkspaceAuthorityRegistry::revoke`. -/
def Registry.revoke (r : Registry) (id : WorkspaceGrantId) (binding : WorkspaceBinding)
    (now : SystemTime) : Except WorkspaceAuthorityError Unit × Registry :=
  if r.poisoned then (.error .registryUnavailable, r)
  else
    match r.grants.get? id with
    | none => (.error .unknownGrant, r)
    | some grant =>
      match verifyBinding grant binding with
      | .error error => (.error error, r)
      | .ok () => (.ok (), { r with grants := r.grants.modify id (·.revoke now) })

end NexusOs.Workspace
