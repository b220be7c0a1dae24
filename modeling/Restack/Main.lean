import Restack.Archive.Stored
import Restack.Loader

namespace Restack

-- The command line: listings of the classes of a container, all of them or
-- those that are named. A method without stack code becomes a stub.

def usage : String := "usage: restack <classes.dex | app.apk> [class/Name ...]"

def fileBytes (path : String) : IO (Except IoFault Bytes) := do
  try return .ok (← IO.FS.readBinFile path).data
  catch fault => return .error ⟨toString fault⟩

def printClasses (files : Files) : Loader → List String → IO (Except LoadFault Unit)
  | _, [] => return .ok ()
  | l, name :: rest => do
    match l.list files name with
    | (.error f, _) => return .error f
    | (.ok text, l) =>
      IO.println text
      printClasses files l rest

def dump (path : String) (wanted : List String) : IO (Except LoadFault Nat) := do
  let content ← fileBytes path
  let files : Files := fun _ => content
  let loader : Loader := { zip := StoredArchive.zip, sources := [.ofPath path], settings := { methodErrors := .stub } }
  match if wanted.isEmpty then loader.classNames files else (.ok wanted, loader) with
  | (.error f, _) => return .error f
  | (.ok names, loader) => do
    let printed ← printClasses files loader names
    return printed.map fun _ => names.length

end Restack

def main (args : List String) : IO Unit := do
  match args with
  | [] => IO.eprintln Restack.usage
  | path :: wanted =>
    match ← Restack.dump path wanted with
    | .ok count => IO.eprintln ("Dumped " ++ toString count ++ " classes")
    | .error f => IO.eprintln ("Aborted due to error: " ++ f.message)
