import HaCluster.Cluster.Change
import HaCluster.Service.Instance

/-!
# Requested changes of an instance's record

What a request leaves out stays as it is.
-/

namespace HaCluster.Service

/-- A change of an instance's monitor record. -/
structure Update where
  state : Option State
  localExpect : Change LocalExpect
  globalExpect : Change GlobalExpect
  /-- Whether every retry counter is dropped. -/
  resetRetries : Bool
  deriving DecidableEq, Inhabited

namespace Update

/-- The change that changes nothing. -/
def none : Update := ⟨.none, .keep, .keep, false⟩

/-- The fields of a change. -/
def fields : List (Field Update) :=
  [Field.withDefault "status" (Decode.optional Named.decode) .none
     (fun x u => { u with state := x }),
   Field.withDefault "local_expect" Change.decode .keep (fun x u => { u with localExpect := x }),
   Field.withDefault "global_expect" Change.decode .keep
     (fun x u => { u with globalExpect := x }),
   Field.withDefault "reset_retries" Decode.bool false
     (fun x u => { u with resetRetries := x })]

/-- Reads a change. -/
def decode : Decoder Update :=
  Decode.record "SmonUpdate" fields Update.none

/-- The record after a change. -/
def apply (u : Update) (m : Monitor) : Monitor :=
  { m with
    state := u.state.getD m.state
    localExpect := u.localExpect.apply m.localExpect
    globalExpect := u.globalExpect.apply m.globalExpect
    retries := if u.resetRetries then [] else m.retries }

end Update

end HaCluster.Service
