import HaCluster.Heartbeat.Registry
import HaCluster.Service.Config
import HaCluster.Toml.Reader

/-!
# Settings of a daemon

The settings are read from a configuration file; what the file leaves out has
a default. A file that can be read may still break a rule.
-/

namespace HaCluster.Daemon

/-- What the defaults take from the machine. -/
structure Host where
  name : String
  processors : Nat
  deriving DecidableEq, Inhabited

/-- The settings of one daemon. -/
structure Settings where
  /-- The name under which the node publishes its blob. -/
  nodeName : String
  /-- The declared nodes, in order. -/
  nodes : List String
  /-- How often the monitor runs when nothing wakes it earlier. -/
  monitorPeriod : Span
  /-- How long a service stays `ready` before it starts. -/
  readyPeriod : Span
  /-- How long a node that joins waits for its peers. -/
  rejoinGrace : Span
  /-- How old a peer's blob may be. -/
  staleAfter : Span
  /-- How long running actions may take to stop before they are killed. -/
  stopTimeout : Span
  maxStartRetries : Nat
  /-- A file that freezes the node while it exists. -/
  freezeFlag : Option String
  statusDir : String
  actionCommand : String
  /-- How many readers refresh statuses; with none they are read at once. -/
  workers : Nat
  heartbeat : Heartbeat.Settings
  deriving DecidableEq, Inhabited

namespace Settings

/-- The settings where nothing else is said. -/
def standard (h : Host) : Settings where
  nodeName := h.name
  nodes := [h.name]
  monitorPeriod := Span.seconds 1
  readyPeriod := Span.seconds 5
  rejoinGrace := Span.seconds 90
  staleAfter := Span.seconds 30
  stopTimeout := Span.seconds 60
  maxStartRetries := 0
  freezeFlag := none
  statusDir := "/var/lib/hamon/status"
  actionCommand := "/usr/libexec/hamon/action"
  workers := min h.processors 4
  heartbeat := Heartbeat.Settings.standard

/-- Reads the path of a file. -/
def filePath : Decoder String
  | _, .string s => .ok s
  | _, j => Decode.wrongType j "path string"

/-- The fields of settings. -/
def fields (h : Host) : List (Field Settings) :=
  let d := standard h
  [Field.withDefault "nodename" Decode.string d.nodeName (fun x s => { s with nodeName := x }),
   Field.withDefault "nodes" (Decode.list Decode.string) d.nodes
     (fun x s => { s with nodes := x }),
   Field.withDefault "monitor_period" Span.decode d.monitorPeriod
     (fun x s => { s with monitorPeriod := x }),
   Field.withDefault "ready_period" Span.decode d.readyPeriod
     (fun x s => { s with readyPeriod := x }),
   Field.withDefault "rejoin_grace_period" Span.decode d.rejoinGrace
     (fun x s => { s with rejoinGrace := x }),
   Field.withDefault "stale_after" Span.decode d.staleAfter
     (fun x s => { s with staleAfter := x }),
   Field.withDefault "stop_tmo" Span.decode d.stopTimeout
     (fun x s => { s with stopTimeout := x }),
   Field.withDefault "max_start_retries" Decode.u32 d.maxStartRetries
     (fun x s => { s with maxStartRetries := x }),
   Field.withDefault "freeze_flag" (Decode.optional filePath) d.freezeFlag
     (fun x s => { s with freezeFlag := x }),
   Field.withDefault "status_dir" filePath d.statusDir (fun x s => { s with statusDir := x }),
   Field.withDefault "action_command" filePath d.actionCommand
     (fun x s => { s with actionCommand := x }),
   Field.withDefault "workers" (Decode.natural 64 "usize") d.workers
     (fun x s => { s with workers := x }),
   Field.withDefault "hb" Heartbeat.Settings.decode d.heartbeat
     (fun x s => { s with heartbeat := x })]

/-- Reads settings. -/
def decode (h : Host) : Decoder Settings :=
  Decode.record "DaemonConfig" (fields h) (standard h)

/-- The rules that settings break. Of the rules about several fields only the
first is reported. -/
def violations (s : Settings) : List Violation :=
  (if s.nodeName.isEmpty then [⟨"nodename", "length"⟩] else [])
    ++ (if !s.nodes.isEmpty && !s.nodes.contains s.nodeName then
          [⟨"__all__", "nodename_not_in_nodes"⟩]
        else if s.monitorPeriod.nanos = 0 then [⟨"__all__", "zero_monitor_period"⟩]
        else [])

/-- The declared nodes, each once, and the local one even if it was left
out. -/
def clusterNodes (s : Settings) : List String :=
  (s.nodes ++ [s.nodeName]).eraseDups

end Settings

/-- Why settings cannot be used. -/
inductive SettingsError where
  /-- The file cannot be read. -/
  | unreadable
  /-- The file breaks the rules of its format, or a value does not fit. -/
  | malformed
  | invalid (violations : List Violation)
  deriving DecidableEq, Inhabited

/-- The settings that a configuration file writes. -/
def Settings.ofText (h : Host) (s : String) : Except SettingsError Settings :=
  match Toml.read? s with
  | none => .error .malformed
  | some t =>
    match decode h .file (.object (Toml.toJsonEntries t)) with
    | .error _ => .error .malformed
    | .ok c => if c.violations.isEmpty then .ok c else .error (.invalid c.violations)

end HaCluster.Daemon
