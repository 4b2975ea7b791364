import HaCluster.Json.Reader

/-!
# Status documents

Resource drivers write the status of every instance as a document, and the
monitor only reads it. A driver that has not reported yet has left no
document, which is not a fault.
-/

namespace HaCluster

/-- Why the status of a service cannot be read. -/
inductive StatusError where
  /-- There is something that is not a file. -/
  | unreadable (service : String)
  /-- The file is not a document. -/
  | malformed (service : String)
  deriving DecidableEq, Inhabited

/-- What reading a status gave: the document, or none if no driver has
reported. -/
abbrev Reading := Except StatusError (Option Value)

/-- What may be found under the name of a file. -/
inductive File where
  | text (content : String)
  | directory
  deriving DecidableEq, Inhabited

/-- The files of a machine by name. -/
abbrev Files := Entries File

namespace Files

/-- The text of a file, if there is one. -/
def text? (fs : Files) (name : String) : Option String :=
  match Entries.get? fs name with
  | some (.text s) => some s
  | _ => none

/-! ## Finding a file by its name

A name is a walk from directory to directory. What lies above a file is a
directory, whether it is listed or not.
-/

/-- What a walk comes to. -/
inductive Found where
  | text (content : String)
  | directory
  | missing
  /-- The walk goes on below a file, or has a step that no name may have. -/
  | blocked
  deriving DecidableEq, Inhabited

/-- The steps of a name. Those that stay where they are do not count. -/
def steps (name : String) : List String :=
  (name.splitOn "/").filter (fun s => s ≠ "" && s ≠ ".")

/-- Where a step leads from a place. -/
def follow (place : List String) (step : String) : List String :=
  if step = ".." then place.dropLast else place ++ [step]

/-- What lies at a place. -/
def find (fs : Files) (place : List String) : Found :=
  match fs.find? (fun e => (steps e.1).foldl follow [] = place) with
  | some (_, .text s) => .text s
  | some (_, .directory) => .directory
  | none =>
    if fs.any (fun e => place.isPrefixOf ((steps e.1).foldl follow [])) then .directory
    else .missing

/-- Walks on from a place. A step may have 255 bytes. -/
def walk (fs : Files) (place : List String) : List String → Found
  | [] => find fs place
  | step :: rest =>
    if step.utf8ByteSize > 255 then .blocked
    else if step = ".." then walk fs (follow place step) rest
    else
      match find fs (follow place step) with
      | .directory => walk fs (follow place step) rest
      | .text s => if rest.isEmpty then .text s else .blocked
      | found => found

/-- What a name leads to. No name has a zero character. -/
def opened (fs : Files) (name : String) : Found :=
  if name.toList.contains (Char.ofNat 0) then .blocked else walk fs [] (steps name)

/-- The file in which drivers report the status of a service. The name of a
service may be that of a directory of its own. -/
def statusFile (dir service : String) : String :=
  if service.startsWith "/" then service ++ "/status.json"
  else dir ++ "/" ++ service ++ "/status.json"

/-- Reads the status of a service from its file in a directory. -/
def readStatus (fs : Files) (dir service : String) : Reading :=
  match fs.opened (statusFile dir service) with
  | .missing => .ok none
  | .directory => .error (.unreadable service)
  | .blocked => .error (.unreadable service)
  | .text s =>
    match Json.read? s with
    | some j => .ok (some (Value.ofJson j))
    | none => .error (.malformed service)

end Files

end HaCluster
