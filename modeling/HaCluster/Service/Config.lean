import HaCluster.Decode.Named

/-!
# Service configurations

The part of a service's definition that decides where and when it runs. A
configuration that decodes may still break a rule; `Config.violations` lists
the rules it breaks.
-/

namespace HaCluster

/-- A rule that a configuration breaks. -/
structure Violation where
  field : String
  code : String
  deriving DecidableEq, Inhabited

namespace Violation

/-- The line that reports a broken rule. -/
def line (v : Violation) : String :=
  v.field ++ ": Validation error: " ++ v.code

/-- The report on broken rules, one line each, in order. -/
def report (vs : List Violation) : String :=
  "\n".intercalate ((vs.map line).mergeSort (fun a b => decide (a ≤ b)))

end Violation

namespace Service

/-- Whether one node runs a service, or several. -/
inductive Topology where
  | failover
  | flex
  deriving DecidableEq, Inhabited

instance : Named Topology where
  all := [.failover, .flex]
  name
    | .failover => "failover"
    | .flex => "flex"

/-- Whether a service is started without being asked for. -/
inductive Orchestration where
  | off
  | ha
  deriving DecidableEq, Inhabited

instance : Named Orchestration where
  all := [.off, .ha]
  name
    | .off => "no"
    | .ha => "ha"

/-- How the nodes of a scope are ordered. -/
inductive Policy where
  /-- As they are declared. -/
  | nodesOrder
  /-- By an order of the service's own, so that leaders spread out. -/
  | spread
  deriving DecidableEq, Inhabited

instance : Named Policy where
  all := [.nodesOrder, .spread]
  name
    | .nodesOrder => "nodes order"
    | .spread => "spread"

/-- What a node publishes about a service that it may run. -/
structure Config where
  /-- The nodes allowed to run an instance. -/
  scope : List String
  topology : Topology
  /-- How many instances a flex service needs. -/
  flexMin : Nat
  /-- How many instances a flex service may have, where that is not the size
  of the scope. -/
  flexLimit : Option Nat
  /-- Services that have to be up first, by path or by `path@node`. -/
  parents : List String
  orchestration : Orchestration
  placement : Policy
  /-- Whether the service keeps running while its node drains. -/
  alwaysOn : Bool
  deriving DecidableEq, Inhabited

namespace Config

/-- How many instances a flex service may have. -/
def flexMax (c : Config) : Nat :=
  c.flexLimit.getD c.scope.length

/-- The rules that a configuration breaks. -/
def violations (c : Config) : List Violation :=
  (if c.scope.isEmpty then [⟨"scope", "length"⟩] else [])
    ++ (if c.topology = .flex ∧ c.flexMax < c.flexMin then
          [⟨"__all__", "flex_min_above_flex_max"⟩]
        else [])

/-- Whether a configuration breaks no rule. -/
def isValid (c : Config) : Bool := c.violations.isEmpty

/-- The fields of a configuration. -/
def fields : List (Field Config) :=
  [Field.required "scope" (Decode.list Decode.string) (fun x c => { c with scope := x }),
   Field.withDefault "topology" Named.decode .failover (fun x c => { c with topology := x }),
   Field.withDefault "flex_min" (Decode.natural 64 "usize") 1
     (fun x c => { c with flexMin := x }),
   Field.withDefault "flex_max" (Decode.optional (Decode.natural 64 "usize")) none
     (fun x c => { c with flexLimit := x }),
   Field.withDefault "parents" (Decode.list Decode.string) []
     (fun x c => { c with parents := x }),
   Field.withDefault "orchestrate" Named.decode .off
     (fun x c => { c with orchestration := x }),
   Field.withDefault "placement" Named.decode .nodesOrder
     (fun x c => { c with placement := x }),
   Field.withDefault "always_on" Decode.bool false (fun x c => { c with alwaysOn := x })]

/-- Reads a configuration. -/
def decode : Decoder Config :=
  Decode.record "ServiceConfig" fields ⟨[], .failover, 1, none, [], .off, .nodesOrder, false⟩

/-- A configuration as a value of the tree. -/
def toValue (c : Config) : Value :=
  .map
    [("always_on", .bool c.alwaysOn),
     ("flex_max", .ofOption .ofNat c.flexLimit),
     ("flex_min", .ofNat c.flexMin),
     ("orchestrate", Named.toValue c.orchestration),
     ("parents", .ofStrings c.parents),
     ("placement", Named.toValue c.placement),
     ("scope", .ofStrings c.scope),
     ("topology", Named.toValue c.topology)]

end Config

end Service

end HaCluster
