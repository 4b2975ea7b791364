import HaCluster.Monitor.World

/-!
# A scripted world

A world without a machine, to try monitors on. Its processes end with scripted
exit codes as soon as they are asked, unless they are held. When an action
succeeds, the world plays the part of the resource drivers and changes the
status documents.
-/

namespace HaCluster.Simulation

/-- A process of a scripted world. -/
structure Process where
  action : Action
  /-- The code it ends with when nothing stops it. -/
  code : Int
  /-- The code it has ended with. -/
  done : Option Int
  deriving Inhabited

/-- A scripted world. -/
structure World where
  /-- The actions that were launched, oldest first. -/
  launched : List Action
  /-- The exit codes of the actions to come. -/
  script : List (String × ActionKind × Int)
  /-- Whether running actions do not end by themselves. -/
  held : Bool
  /-- Whether no action can be launched. -/
  refusing : Bool
  /-- Whether actions only end when they are killed. -/
  stubborn : Bool
  /-- Whether actions that succeed change the status documents. -/
  effects : Bool
  processes : List Process
  documents : Entries Value
  files : Files
  deriving Inhabited

namespace World

/-- A world in which nothing has happened. -/
def new (effects stubborn : Bool) : World where
  launched := []
  script := []
  held := false
  refusing := false
  stubborn := stubborn
  effects := effects
  processes := []
  documents := []
  files := []

/-! ## Status documents -/

/-- Sets keys of the document of a service. What is no mapping is replaced by
one. -/
def setKeys (w : World) (service : String) (keys : List (String × Value)) : World :=
  let doc := ((Entries.get? w.documents service).bind Value.asMap?).getD []
  { w with
    documents := Entries.insert w.documents service
      (.map (keys.foldl (fun m e => Entries.insert m e.1 e.2) doc)) }

/-- Reports whether a service can be used. -/
def setAvail (w : World) (service : String) (a : Avail) : World :=
  w.setKeys service [("avail", Named.toValue a), ("overall", Named.toValue a)]

/-- Replaces the document of a service. -/
def setDocument (w : World) (service : String) (doc : Value) : World :=
  { w with documents := Entries.insert w.documents service doc }

/-- Removes the document of a service. -/
def removeDocument (w : World) (service : String) : World :=
  { w with documents := Entries.erase w.documents service }

/-- What an action that succeeds changes. -/
def succeed (w : World) (a : Action) : World :=
  match a.kind with
  | .start => w.setAvail a.path .up
  | .stop => w.setAvail a.path .down
  | .freeze => w.setKeys a.path [("frozen", .float 5.5)]
  | .thaw => w.setKeys a.path [("frozen", .int 0)]
  | .provision => w.setKeys a.path [("provisioned", .bool true)]

/-! ## Processes -/

/-- Scripts the exit codes of the next actions of a kind on a service. -/
def addScript (w : World) (service : String) (kind : ActionKind) (codes : List Int) : World :=
  { w with script := w.script ++ codes.map (fun c => (service, kind, c)) }

/-- The exit code of the next action of a kind on a service: zero unless
scripted. -/
def nextCode (w : World) (a : Action) : Int × World :=
  match w.script.findIdx? (fun e => e.1 = a.path && e.2.1 = a.kind) with
  | some i => (((w.script[i]?).map (fun e => e.2.2)).getD 0,
      { w with script := w.script.eraseIdx i })
  | none => (0, w)

/-- How many actions of a kind were launched on a service. -/
def count (w : World) (service : String) (kind : ActionKind) : Nat :=
  w.launched.countP (fun a => a.path = service && a.kind = kind)

/-- Starts a process. -/
def launch (a : Action) (w : World) : Option Nat × World :=
  if w.refusing then (none, w)
  else
    let (code, w) := w.nextCode a
    (some w.processes.length,
      { w with launched := w.launched ++ [a], processes := w.processes ++ [⟨a, code, none⟩] })

/-- Ends a process that has not ended yet. -/
def finish (n : Nat) (code : Int) (w : World) : World :=
  match w.processes[n]? with
  | some p =>
    if p.done.isSome then w
    else
      let w := { w with processes := w.processes.set n { p with done := some code } }
      if w.effects && code = 0 then w.succeed p.action else w
  | none => w

/-- The exit code of a process, once it has ended. -/
def poll (n : Nat) (w : World) : Option Int × World :=
  match w.processes[n]? with
  | some p =>
    match p.done with
    | some code => (some code, w)
    | none =>
      if w.held || w.stubborn then (none, w)
      else (some p.code, w.finish n p.code)
  | none => (some 1, w)

/-- Asks a process to end. -/
def terminate (n : Nat) (w : World) : World :=
  if w.stubborn then w else w.finish n 143

/-- Ends a process. -/
def kill (n : Nat) (w : World) : World := w.finish n 137

end World

instance : HaCluster.World World where
  launch := World.launch
  poll := World.poll
  terminate := World.terminate
  kill := World.kill
  readStatus w service := .ok (Entries.get? w.documents service)
  readFile w name := w.files.text? name
  fileExists w name := Entries.contains w.files name
  setFile name there w :=
    { w with
      files := if there then Entries.insert w.files name (.text "")
        else Entries.erase w.files name }

end HaCluster.Simulation
