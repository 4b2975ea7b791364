import HaCluster.Launch.Script
import HaCluster.Service.Action

/-!
# Launching actions

An action runs as `<command> <service> <action> [--rid <resource>]...`. The
command has to be a file that may be executed. A process that a signal ended
counts as failed with code 1.
-/

namespace HaCluster.Launch

/-- What lies where the action command should be. -/
inductive CommandFile where
  | missing
  | directory
  | file (executable : Bool) (content : String)
  deriving DecidableEq, Inhabited

/-- Why an action cannot be launched. -/
inductive LaunchError where
  | notFound
  | notExecutable
  /-- The machine cannot start the file. -/
  | cannotSpawn
  deriving DecidableEq, Inhabited

/-- How the interpreter of a script goes about it. -/
inductive Interpreter where
  /-- It runs the commands of the script. -/
  | shell
  /-- It ends with a code whatever the script says. -/
  | constant (code : Nat)
  deriving DecidableEq, Inhabited

/-- The directories of the system commands. -/
def systemDirs : List String := ["/bin/", "/usr/bin/"]

/-- The interpreter that a line names. -/
def interpreter? (line : String) : Option Interpreter :=
  let named (commands : List String) : Bool :=
    systemDirs.any (fun dir => commands.any (fun c => line = dir ++ c))
  if named ["sh", "dash", "bash", "sh -e", "sh -u", "bash -e", "env sh", "env bash"] then
    some .shell
  else if named ["true", "env true"] then some (.constant 0)
  else if named ["false", "env false"] then some (.constant 1)
  else none

/-- The interpreter of a script: the one that its first line names. -/
def interpreterOf (content : String) : Option Interpreter :=
  match content.toList with
  | '#' :: '!' :: rest =>
    interpreter? (String.ofList ((rest.takeWhile (· ≠ '\n')).dropWhile (· = ' ')))
  | _ => none

/-- How the process of an action ended and the files that it wrote. -/
structure Outcome where
  ending : Ending
  files : Entries String
  deriving Inhabited

/-- The exit code of a process. -/
def Ending.code : Ending → Int
  | .exited code => code
  | .killed => 1

/-- Whether a process can be given a word: no word has a zero character. -/
def isWord (w : String) : Bool := !w.toList.contains (Char.ofNat 0)

/-- Launches an action by a command and waits for its end; `signalled` tells
that a signal ends the process at once. -/
def launch (command : String) (file : CommandFile) (action : Action) (signalled : Bool) :
    Except LaunchError Outcome :=
  match file with
  | .missing => .error .notFound
  | .directory => .error .notExecutable
  | .file false _ => .error .notExecutable
  | .file true content =>
    match if (command :: action.arguments).all isWord then interpreterOf content else none with
    | none => .error .cannotSpawn
    | some i =>
      if signalled then .ok ⟨.killed, []⟩
      else
        match i with
        | .constant code => .ok ⟨.exited code, []⟩
        | .shell =>
          let (ending, s) := Shell.run
            ⟨command, action.arguments, [], "/", [], 0, none⟩ content.toList
          .ok ⟨ending, s.files⟩

end HaCluster.Launch
