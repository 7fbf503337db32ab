import Mathlib
import Waldur.Lib.Table
import Waldur.Marketplace.Models

/-!
# Policies.Models — policies, their actions and the resources they restrict

The columns of `policy/models.py` and the table `POLICY_ACTIONS` of `policy/policy_actions.py` that the
evaluation of a policy reads.  A policy class fixes the type of its scope, so the scope is a primary key
read through the class.
-/

namespace Waldur.Policies

open Relational Marketplace

/-- The concrete subclasses of `Policy`. -/
inductive PolicyClass
  | projectEstimatedCost
  | customerEstimatedCost
  | offeringEstimatedCost
  | offeringUsage
  | customerComponentUsage
  | slurmPeriodicUsage
deriving DecidableEq, Repr

/-- `_cost_policy_classes`. -/
def PolicyClass.isCost : PolicyClass → Bool
  | .projectEstimatedCost | .customerEstimatedCost | .offeringEstimatedCost => true
  | _ => false

/-- The keys of `POLICY_ACTIONS`. -/
inductive ActionName
  | notifyProjectTeam
  | notifyOrganizationOwners
  | notifyExternalUser
  | terminateResources
  | blockCreationOfNewResources
  | blockModificationOfExistingResources
  | requestDownscaling
  | restrictMembers
  | requestPausing
  | requestSlurmResourceDownscaling
  | requestSlurmResourcePausing
deriving DecidableEq, Repr

/-- `PolicyActionTypes`. -/
inductive PolicyActionType
  | immediate
  | threshold
deriving DecidableEq, Repr

/-- The flags of a resource that policies set. -/
inductive Flag
  | paused
  | downscaled
  | restrictMemberAccess
deriving DecidableEq, Repr

/-- `action_type`. -/
def ActionName.actionType : ActionName → PolicyActionType
  | .blockCreationOfNewResources | .blockModificationOfExistingResources => .threshold
  | _ => .immediate

/-- `reset_method`: the flag it clears, `none` where the action has no reset. -/
def ActionName.resetField : ActionName → Option Flag
  | .requestDownscaling => some .downscaled
  | .restrictMembers => some .restrictMemberAccess
  | .requestPausing => some .paused
  | _ => none

/-- `_FIELD_TO_REQUEST_ACTION`. -/
def Flag.requestAction : Flag → ActionName
  | .paused => .requestPausing
  | .downscaled => .requestDownscaling
  | .restrictMemberAccess => .restrictMembers

@[simp] theorem resetField_requestAction (f : Flag) : f.requestAction.resetField = some f := by
  cases f <;> rfl

/-- `available_actions`. -/
def PolicyClass.availableActions : PolicyClass → List ActionName
  | .projectEstimatedCost =>
    [.notifyProjectTeam, .notifyOrganizationOwners, .notifyExternalUser, .blockCreationOfNewResources,
      .blockModificationOfExistingResources, .terminateResources, .requestDownscaling, .restrictMembers,
      .requestPausing]
  | .customerEstimatedCost | .customerComponentUsage =>
    [.notifyOrganizationOwners, .notifyExternalUser, .blockCreationOfNewResources,
      .blockModificationOfExistingResources, .terminateResources, .requestDownscaling, .restrictMembers,
      .requestPausing]
  | .offeringEstimatedCost | .offeringUsage =>
    [.notifyOrganizationOwners, .notifyExternalUser, .blockCreationOfNewResources]
  | .slurmPeriodicUsage =>
    [.notifyOrganizationOwners, .notifyExternalUser, .blockCreationOfNewResources,
      .requestSlurmResourceDownscaling, .requestSlurmResourcePausing]

structure Project where
  id : ℕ
  customer : ℕ
  isInGracePeriod : Bool := false
deriving DecidableEq

/-- An offering with the `plugin_options` the actions filter on. -/
structure Offering where
  id : ℕ
  supportsPausing : Bool := false
  supportsDownscaling : Bool := false
  serviceProviderCanCreateOfferingUser : Bool := false
deriving DecidableEq

structure Resource where
  id : ℕ
  project : Project
  offering : Offering
  state : ResourceState := .ok
  paused : Bool := false
  downscaled : Bool := false
  restrictMemberAccess : Bool := false
deriving DecidableEq

/-- `getattr(resource, field_name)`. -/
def Resource.get (r : Resource) : Flag → Bool
  | .paused => r.paused
  | .downscaled => r.downscaled
  | .restrictMemberAccess => r.restrictMemberAccess

/-- `_save_resource_with_reversion`: the one field it saves. -/
def Resource.set (r : Resource) (value : Bool) : Flag → Resource
  | .paused => { r with paused := value }
  | .downscaled => { r with downscaled := value }
  | .restrictMemberAccess => { r with restrictMemberAccess := value }

@[simp] theorem id_set (r : Resource) (v : Bool) (f : Flag) : (r.set v f).id = r.id := by cases f <;> rfl

@[simp] theorem get_set_self (r : Resource) (v : Bool) (f : Flag) : (r.set v f).get f = v := by
  cases f <;> rfl

theorem get_set_ne (r : Resource) (v : Bool) {f g : Flag} (h : f ≠ g) : (r.set v g).get f = r.get f := by
  cases f <;> cases g <;> first | rfl | exact absurd rfl h

/-- The queryset that the actions on a flag select from. -/
def Flag.eligible (f : Flag) (r : Resource) : Bool :=
  match f with
  | .paused => r.offering.supportsPausing && r.state != .terminated
  | .downscaled => r.offering.supportsDownscaling && r.state != .terminated && r.state != .terminating
  | .restrictMemberAccess => r.offering.serviceProviderCanCreateOfferingUser && r.state != .terminated

@[simp] theorem eligible_set (r : Resource) (v : Bool) (f g : Flag) :
    f.eligible (r.set v g) = f.eligible r := by
  cases f <;> cases g <;> rfl

/-- A policy; `resource` narrows a project cost policy, `graceRatio` belongs to the SLURM policy. -/
structure Policy where
  cls : PolicyClass
  pk : ℕ
  scope : ℕ
  resource : Option ℕ := none
  actions : List ActionName
  hasFired : Bool := false
  graceRatio : ℚ := 0

/-- A policy's table and primary key. -/
abbrev Policy.key (p : Policy) : PolicyClass × ℕ := (p.cls, p.pk)

/-- `get_all_actions`. -/
def Policy.getAllActions (p : Policy) : List ActionName :=
  p.actions.filter (fun a => p.cls.availableActions.contains a)

/-- `get_immediate_actions`. -/
def Policy.getImmediateActions (p : Policy) : List ActionName :=
  p.getAllActions.filter (fun a => a.actionType == .immediate)

/-- `get_threshold_actions`. -/
def Policy.getThresholdActions (p : Policy) : List ActionName :=
  p.getAllActions.filter (fun a => a.actionType == .threshold)

/-- `_filter_resources_by_scope`. -/
def Policy.inScope (p : Policy) (r : Resource) : Bool :=
  (match p.cls with
    | .projectEstimatedCost => r.project.id == p.scope
    | .customerEstimatedCost | .customerComponentUsage => r.project.customer == p.scope
    | .offeringEstimatedCost | .offeringUsage | .slurmPeriodicUsage => r.offering.id == p.scope) &&
  (match p.resource with
    | none => true
    | some resource => r.id == resource)

@[simp] theorem inScope_set (p : Policy) (r : Resource) (v : Bool) (f : Flag) :
    p.inScope (r.set v f) = p.inScope r := by
  cases f <;> rfl

/-- A cost policy that has fired and carries the request action: it wants the flag kept. -/
def Policy.wantsKept (p : Policy) (f : Flag) : Bool :=
  p.cls.isCost && p.hasFired && p.actions.contains f.requestAction

/-- The same policy with another `has_fired`. -/
def Policy.withFired (p : Policy) (fired : Bool) : Policy := { p with hasFired := fired }

@[simp] theorem key_withFired (p : Policy) (b : Bool) : (p.withFired b).key = p.key := rfl

@[simp] theorem inScope_withFired (p : Policy) (b : Bool) (r : Resource) :
    (p.withFired b).inScope r = p.inScope r := rfl

@[simp] theorem getImmediateActions_withFired (p : Policy) (b : Bool) :
    (p.withFired b).getImmediateActions = p.getImmediateActions := rfl

@[simp] theorem hasFired_withFired (p : Policy) (b : Bool) : (p.withFired b).hasFired = b := rfl

end Waldur.Policies
