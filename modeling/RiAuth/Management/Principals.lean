import RiAuth.Basic
import RiAuth.Lib.Checks

/-!
# Callers of the management interface

A caller is an administrator, a person with grants that name one object each, or an agent with
permissions. What it may do also depends on the edition.

* `HumanGrant.allows`: what a grant is good for;
* `Edition.of`: what an edition has;
* `Principal.allows`: what a caller may do.
-/

namespace RiAuth

/-- A role of an operator. -/
inductive HumanRole where
  | helpDesk
  | applicationOwner
  | directoryOperator
  | auditor
  | securityAdministrator
deriving DecidableEq

/-- A grant, with the object that was meant when it was given. -/
structure HumanGrant where
  role : HumanRole
  scope : Text
  targetId : Text
deriving DecidableEq

/-- What a grant permits. -/
def HumanGrant.allows (g : HumanGrant) (action resource : Text) : Bool :=
  (action = "state.read".toList && resource = "state/revision".toList) ||
    (g.scope = resource &&
      match g.role with
      | .helpDesk => action ∈ ["user.read".toList, "user.support".toList]
      | .applicationOwner => action ∈ ["client.read".toList, "client.owner_update".toList]
      | .directoryOperator => action ∈ ["directory.read".toList, "directory.sync".toList]
      | .auditor => action = "audit.read".toList
      | .securityAdministrator => action ∈ ["key.read".toList, "key.write".toList] ||
          (action = "key.rotate".toList && resource = "key/signing".toList))

/-- A permission of an agent; the resource may be `*`. -/
structure Permission where
  action : Text
  resource : Text
deriving DecidableEq

/-- A caller. -/
structure Principal where
  id : Text
  agent : Bool
  /-- A human with current, exact grants rather than full administrator rights. -/
  delegated : Bool
  grants : List HumanGrant
  permissions : List Permission

/-- The actions and the permissions of agents that an edition has. -/
structure Edition where
  actionAvailable : Text → Bool
  agentPermissionAvailable : Text → Text → Bool

/-- The actions of the platform edition only. -/
def platformActions : List Text :=
  ["ldap.search", "certificate.read", "certificate.write", "mtls.read", "mtls.bind",
    "radius.enroll", "user.offboard", "access.read", "device.enroll", "ssf.manage",
    "ssf.configure", "workflow.read", "workflow.write"].map String.toList

/-- The platform edition, or essentials. -/
def Edition.of (platform : Bool) : Edition where
  actionAvailable action := platform || !platformActions.contains action
  agentPermissionAvailable action resource :=
    (platform || !platformActions.contains action) &&
      (platform || !("workspace/".toList.isPrefixOf resource ||
        "entra/".toList.isPrefixOf resource || (resource == ['*'] &&
          (action == "directory.read".toList || action == "directory.sync".toList))))

/-- Whether a caller may do something to a resource. -/
def Principal.allows (e : Edition) (p : Principal) (action resource : Text) : Bool :=
  e.actionAvailable action &&
    if p.delegated then p.grants.any fun g => g.allows action resource
    else if p.agent then
      p.permissions.any fun q => e.agentPermissionAvailable q.action q.resource &&
        q.action = action && (q.resource = resource || q.resource = ['*'])
    else true

/-- `Principal::require`. -/
def Principal.require (e : Edition) (p : Principal) (action resource : Text) : Result Unit :=
  Checks.require (p.allows e action resource = true) .forbidden

end RiAuth
