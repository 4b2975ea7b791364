import HaCluster.Cluster.Change
import HaCluster.Node.Monitor

/-!
# Requested changes of a node's record

What a request leaves out stays as it is.
-/

namespace HaCluster.Node

/-- A change of a node's monitor record. -/
structure Update where
  state : Option State
  localExpect : Change LocalExpect
  globalExpect : Change GlobalExpect
  deriving DecidableEq, Inhabited

namespace Update

/-- The change that changes nothing. -/
def none : Update := ⟨.none, .keep, .keep⟩

/-- The change that only goes to a state. -/
def enter (state : State) : Update := { Update.none with state := some state }

/-- The fields of a change. -/
def fields : List (Field Update) :=
  [Field.withDefault "status" (Decode.optional Named.decode) .none
     (fun x u => { u with state := x }),
   Field.withDefault "local_expect" Change.decode .keep (fun x u => { u with localExpect := x }),
   Field.withDefault "global_expect" Change.decode .keep
     (fun x u => { u with globalExpect := x })]

/-- Reads a change. -/
def decode : Decoder Update :=
  Decode.record "NmonUpdate" fields Update.none

/-- The record after a change. -/
def apply (u : Update) (m : Monitor) : Monitor :=
  { m with
    state := u.state.getD m.state
    localExpect := u.localExpect.apply m.localExpect
    globalExpect := u.globalExpect.apply m.globalExpect }

end Update

end HaCluster.Node
