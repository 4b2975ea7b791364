import HaCluster.Node.Update
import HaCluster.Replication.Message
import HaCluster.Service.Update

/-!
# Requests

What clients and peers ask of a daemon. A request is an object whose member
`action` names what is asked and whose member `options` says more, in either
order; other members are passed over. The sequence of the two is read as
well.

Options that come before the action are read ahead, since only the action
tells what they have to be.
-/

namespace HaCluster

/-- What is asked of a daemon. -/
inductive Request where
  /-- Changes the record of the node. -/
  | setNode (update : Node.Update)
  /-- Changes the record of an instance. -/
  | setInstance (service : String) (update : Service.Update)
  /-- Reports the status document of a local instance. -/
  | postStatus (service : String) (status : Value)
  /-- Adds, replaces or, without a configuration, removes a local service. -/
  | postConfig (service : String) (config : Option Value)
  /-- Hands a message of a peer in. -/
  | peerMessage (peer : String) (message : Message)
  /-- Asks for the whole local blob. -/
  | fullSync
  /-- Asks for the whole tree. -/
  | clusterStatus
  /-- Asks for a line on every instance. -/
  | summary
  /-- Stops the daemon and leaves the services as they are. -/
  | stop
  deriving Inhabited

namespace Request

/-- The actions that requests name. -/
inductive Kind where
  | setNode
  | setInstance
  | postStatus
  | postConfig
  | peerMessage
  | fullSync
  | clusterStatus
  | summary
  | stop
  deriving DecidableEq, Inhabited

instance : Named Kind where
  all := [.setNode, .setInstance, .postStatus, .postConfig, .peerMessage, .fullSync,
    .clusterStatus, .summary, .stop]
  name
    | .setNode => "set_nmon"
    | .setInstance => "set_smon"
    | .postStatus => "post_status"
    | .postConfig => "post_config"
    | .peerMessage => "peer_message"
    | .fullSync => "full_sync"
    | .clusterStatus => "cluster_status"
    | .summary => "summary"
    | .stop => "daemon_stop"

/-- What messages call the options of an action. -/
def Kind.form : Kind → String
  | .setNode => "struct NmonUpdate"
  | .setInstance => "struct variant Request::SetSmon"
  | .postStatus => "struct variant Request::PostStatus"
  | .postConfig => "struct variant Request::PostConfig"
  | .peerMessage => "struct variant Request::PeerMessage"
  | .fullSync => "unit variant Request::FullSync"
  | .clusterStatus => "unit variant Request::ClusterStatus"
  | .summary => "unit variant Request::Summary"
  | .stop => "unit variant Request::DaemonStop"

/-- The request that an action makes by itself, if it takes no options. -/
def Kind.bare? : Kind → Option Request
  | .fullSync => some .fullSync
  | .clusterStatus => some .clusterStatus
  | .summary => some .summary
  | .stop => some .stop
  | _ => none

/-! ## Options -/

/-- Sets the options on an instance apart from the name of its service: the
service, and the other members, which are read ahead. -/
def takeService (o : Origin) : List (String × Json) → Option String →
    Except DecodeError (Option String × List (String × Json))
  | [], service => .ok (service, [])
  | (name, j) :: rest, service =>
    if name = "path" then
      if service.isSome then .error (.duplicateField "path")
      else do
        let path ← Decode.string o j
        takeService o rest (some path)
    else if j.isWhole then do
      let (service, others) ← takeService o rest service
      pure (service, (name, j) :: others)
    else .error .malformed

/-- Reads the options on an instance: the service beside the fields of the
change. -/
def decodeInstance : Decoder Request
  | o, .object ms => do
    match ← takeService o ms none with
    | (none, _) => .error (.missingField "path")
    | (some service, others) =>
      let known := others.filter (fun e => Service.Update.fields.any (fun f => f.name = e.1))
      let u ← Service.Update.decode .buffered (.object known)
      pure (.setInstance service u)
  | _, j => Decode.wrongType j Kind.setInstance.form

/-- The field that names the service or the peer. -/
def nameField {α : Type} (name : String) : Field (String × α) :=
  Field.required name Decode.string (fun x s => (x, s.2))

/-- Reads the options of an action. -/
def decodeOptions : Kind → Decoder Request
  | .setNode, o, j => (Node.Update.decode o j).map .setNode
  | .setInstance, o, j => decodeInstance o j
  | .postStatus, o, j => do
    let s ← Decode.fields Kind.postStatus.form
      [nameField "path", Field.required "status" Decode.value (fun x s => (s.1, x))] default o j
    pure (.postStatus s.1 s.2)
  | .postConfig, o, j => do
    let s ← Decode.fields Kind.postConfig.form
      [nameField "path", Field.withDefault "config" (Decode.optional Decode.value) none
        (fun x s => (s.1, x))] default o j
    pure (.postConfig s.1 s.2)
  | .peerMessage, o, j => do
    let s ← Decode.fields Kind.peerMessage.form
      [nameField "peer", Field.required "message" Message.decode (fun x s => (s.1, x))]
      default o j
    pure (.peerMessage s.1 s.2)
  | .fullSync, _, j => (Decode.noContent j Kind.fullSync.form).map (fun _ => .fullSync)
  | .clusterStatus, _, j =>
    (Decode.noContent j Kind.clusterStatus.form).map (fun _ => .clusterStatus)
  | .summary, _, j => (Decode.noContent j Kind.summary.form).map (fun _ => .summary)
  | .stop, _, j => (Decode.noContent j Kind.stop.form).map (fun _ => .stop)

/-! ## The two members -/

/-- The members that a request is made of. -/
inductive Part where
  | action
  | options
  deriving DecidableEq, Inhabited

/-- The name of a member. -/
def Part.name : Part → String
  | .action => "action"
  | .options => "options"

/-- The first of the two members, and what follows it. -/
def nextPart : List (String × Json) →
    Except DecodeError (Option (Part × Json × List (String × Json)))
  | [] => .ok none
  | (name, j) :: rest =>
    if name = Part.action.name then .ok (some (.action, j, rest))
    else if name = Part.options.name then .ok (some (.options, j, rest))
    else if Decode.passesOver name j then nextPart rest
    else .error .malformed

/-- Checks that neither member comes again. -/
def noMoreParts (ms : List (String × Json)) : Except DecodeError Unit := do
  match ← nextPart ms with
  | some (part, _, _) => .error (.duplicateField part.name)
  | none => pure ()

/-- Reads a request. -/
def decode : Decoder Request
  | o, .object ms => do
    match ← nextPart ms with
    | none => .error (.missingField Part.action.name)
    | some (.action, j, rest) =>
      let kind ← (Named.decode : Decoder Kind) o j
      match ← nextPart rest with
      | none =>
        match kind.bare? with
        | some r => pure r
        | none => .error (.missingField Part.options.name)
      | some (.action, _, _) => .error (.duplicateField Part.action.name)
      | some (.options, j, rest) =>
        let r ← decodeOptions kind o j
        noMoreParts rest
        pure r
    | some (.options, j, rest) =>
      let options ← Decode.buffer o j
      match ← nextPart rest with
      | none => .error (.missingField Part.action.name)
      | some (.options, _, _) => .error (.duplicateField Part.options.name)
      | some (.action, j, rest) =>
        let kind ← (Named.decode : Decoder Kind) o j
        let r ← decodeOptions kind .buffered options
        noMoreParts rest
        pure r
  | o, .array js =>
    match js with
    | [] => .error (.invalidLength 0 "adjacently tagged enum Request")
    | k :: rest => do
      let kind ← match k with
        | .string s => Decode.variant (Named.table : List (String × Kind)) s
        | k => Decode.wrongType k "variant identifier"
      match rest with
      | [] => .error (.invalidLength 1 "adjacently tagged enum Request")
      | j :: rest =>
        let r ← decodeOptions kind o j
        if rest.isEmpty then pure r else .error .malformed
  | _, j => Decode.wrongType j "adjacently tagged enum Request"

end Request

end HaCluster
