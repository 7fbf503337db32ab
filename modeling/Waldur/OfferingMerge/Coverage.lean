import Mathlib
import Waldur.OfferingMerge.Models

/-!
# OfferingMerge.Coverage — the registry of covered fields

`MERGE_COVERAGE` in the order of the source, which is the order of the phases.  Entries whose strategy writes nothing
(`recompute`, `keep_on_source`, `not_applicable`) only count rows and are left out; the two `rewrite_snapshot` entries
are the invoice writes of the merge itself.  `PLAN_REFERENCES` and `COMPONENT_REFERENCES` are the lists by which a plan
or a component needs a mapping.
-/

namespace Waldur.OfferingMerge

/-- The model that a relation points to. -/
inductive Related
  | offering
  | plan
  | component
deriving DecidableEq, Repr

inductive Strategy
  | repoint
  | repointDedupe
deriving DecidableEq, Repr

/-- A foreign key, or the reference of a many-to-many row. -/
structure Relation where
  model : Model
  attname : Attname
  related : Related
  strategy : Strategy := .repoint
  uniqueWith : List Attname := []
  collisionBlocker : String := ""
deriving DecidableEq, Repr

inductive Rename
  | componentTypes
  | answerKeys
deriving DecidableEq, Repr

/-- The lookup from a row to its offering. -/
inductive OfferingPath
  | offering
  | resourceOffering
  | planOffering
deriving DecidableEq, Repr

/-- The lookup from a row to its resource. -/
inductive ResourcePath
  | pk
  | resource
  | none
deriving DecidableEq, Repr

/-- A JSON document whose keys are renamed. -/
structure JsonKeys where
  model : Model
  field : JsonField
  offeringPath : OfferingPath
  rename : Rename
  resourcePath : ResourcePath := .none
  /-- `mapped_plan_path="plan"`. -/
  mappedPlan : Bool := false
deriving DecidableEq, Repr

inductive CoverageEntry
  | relation (e : Relation)
  | jsonKeys (e : JsonKeys)
deriving DecidableEq, Repr

def mergeCoverage : List CoverageEntry :=
  [.relation { model := .resourcePlanPeriod, attname := .plan, related := .plan },
    .relation
      { model := .componentUsage, attname := .component, related := .component,
        uniqueWith := [.resource, .planPeriod, .billingPeriod], collisionBlocker := "component_usage_collision" },
    .relation
      { model := .componentQuota, attname := .component, related := .component, strategy := .repointDedupe,
        uniqueWith := [.resource] },
    .relation
      { model := .componentUsagePollRecord, attname := .component, related := .component,
        strategy := .repointDedupe, uniqueWith := [.resource] },
    .relation
      { model := .componentUserUsageLimit, attname := .component, related := .component,
        strategy := .repointDedupe, uniqueWith := [.resource, .user] },
    .relation { model := .resource, attname := .offering, related := .offering },
    .relation { model := .resource, attname := .plan, related := .plan },
    .jsonKeys
      { model := .resource, field := .limits, offeringPath := .offering, rename := .componentTypes,
        resourcePath := .pk },
    .jsonKeys
      { model := .resource, field := .currentUsages, offeringPath := .offering, rename := .componentTypes,
        resourcePath := .pk },
    .jsonKeys
      { model := .resource, field := .attributes, offeringPath := .offering, rename := .answerKeys,
        resourcePath := .pk },
    .relation { model := .order, attname := .offering, related := .offering },
    .relation { model := .order, attname := .plan, related := .plan },
    .relation { model := .order, attname := .oldPlan, related := .plan },
    .jsonKeys
      { model := .order, field := .limits, offeringPath := .offering, rename := .componentTypes,
        resourcePath := .resource },
    .jsonKeys
      { model := .order, field := .attributes, offeringPath := .offering, rename := .answerKeys,
        resourcePath := .resource },
    .jsonKeys
      { model := .resourceProject, field := .limits, offeringPath := .resourceOffering,
        rename := .componentTypes, resourcePath := .resource },
    .jsonKeys
      { model := .resourceProject, field := .currentUsages, offeringPath := .resourceOffering,
        rename := .componentTypes, resourcePath := .resource },
    .jsonKeys
      { model := .resourceLimitChangeRequest, field := .requestedLimits, offeringPath := .resourceOffering,
        rename := .componentTypes, resourcePath := .resource },
    .relation
      { model := .offeringUser, attname := .offering, related := .offering, strategy := .repointDedupe,
        uniqueWith := [.user] },
    .relation { model := .offeringUserGroup, attname := .offering, related := .offering },
    .relation
      { model := .offeringRoleGroup, attname := .offering, related := .offering, strategy := .repointDedupe,
        uniqueWith := [.contentType, .objectId, .role] },
    .relation { model := .issue, attname := .offering, related := .offering },
    .relation
      { model := .customerCreditOfferings, attname := .offering, related := .offering,
        strategy := .repointDedupe, uniqueWith := [.customerCredit] },
    .relation
      { model := .customerUsagePolicyComponent, attname := .component, related := .component,
        strategy := .repointDedupe, uniqueWith := [.policy, .period] },
    .relation { model := .requestedOffering, attname := .offering, related := .offering },
    .relation { model := .requestedOffering, attname := .plan, related := .plan },
    .relation { model := .rule, attname := .plan, related := .plan },
    .jsonKeys
      { model := .rule, field := .planLimits, offeringPath := .planOffering, rename := .componentTypes,
        mappedPlan := true },
    .relation
      { model := .projectTemplateOfferings, attname := .offering, related := .offering,
        strategy := .repointDedupe, uniqueWith := [.projectTemplate] }]

/-- The covered relations. -/
def relations : List Relation := mergeCoverage.filterMap fun
  | .relation e => some e
  | .jsonKeys _ => none

/-- The covered JSON documents. -/
def jsonEntries : List JsonKeys := mergeCoverage.filterMap fun
  | .relation _ => none
  | .jsonKeys e => some e

/-- `PLAN_REFERENCES`. -/
def planReferences : List (Model × Attname) :=
  [(.resource, .plan), (.order, .plan), (.order, .oldPlan), (.resourcePlanPeriod, .plan), (.requestedOffering, .plan)]

/-- `COMPONENT_REFERENCES`. -/
def componentReferences : List (Model × Attname) :=
  [(.componentUsage, .component), (.componentQuota, .component), (.componentUsagePollRecord, .component),
    (.componentUserUsageLimit, .component)]

/-- `_USAGE_MODELS`. -/
def usageModels : List Model :=
  [.componentUsage, .componentQuota, .componentUsagePollRecord, .componentUserUsageLimit]

end Waldur.OfferingMerge
