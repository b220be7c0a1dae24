import Restack.Archive.Basic
import Restack.Class.Basic
import Restack.Class.Listing

namespace Restack

inductive Source where
  | memory (bytes : Bytes)
  | file (path : String)
  | archive (path : String)

def Source.text : Source → String
  | .memory bytes => "<" ++ toString bytes.size ++ " bytes>"
  | .file path | .archive path => path

def extension? (path : String) : Option String :=
  let name := (path.toList.reverse.takeWhile (· ≠ '/')).reverse
  let last := (name.reverse.takeWhile (· ≠ '.')).reverse
  if last.length + 1 < name.length then some (String.ofList last) else none

def Source.ofPath (path : String) : Source :=
  match extension? path with
  | some "apk" | some "jar" | some "zip" => .archive path
  | _ => .file path

inductive LoadFault where
  | classNotFound (name : String)
  | container (fault : Fault)
  | io (fault : IoFault)
  | archive (fault : ZipFault)
  | capacity

namespace LoadFault

def message : LoadFault → String
  | .classNotFound name => "class " ++ name ++ " not found"
  | .container fault => fault.message
  | .io fault => "I/O error: " ++ fault.text
  | .archive fault => "archive error: " ++ fault.message
  | .capacity => ArchiveFault.message .capacity

-- Which member is missing is not told on.
def ofArchive : ArchiveFault → LoadFault
  | .io fault => .io fault
  | .zip fault => .archive fault
  | .missingEntry _ => .archive .fileNotFound
  | .capacity => .capacity

end LoadFault

-- What files hold at the time of a call.
abbrev Files := String → Except IoFault Bytes

namespace Source

def bytes (zip : ZipReader) (files : Files) (settings : Settings) : Source → Except LoadFault Bytes
  | .memory bytes => .ok bytes
  | .file path => (files path).mapError .io
  | .archive path => do
    let packed ← (files path).mapError .io
    ((Archive.ofBytes zip packed).bind (·.read settings.archiveEntry)).mapError .ofArchive

def container (zip : ZipReader) (files : Files) (settings : Settings) (s : Source) : Except LoadFault Container := do
  (Container.ofBytes (← s.bytes zip files settings)).mapError .container

end Source

-- Finds classes in a list of sources. The sources are read at the first call that can read them all,
-- and kept.
structure Loader where
  zip : ZipReader
  sources : List Source
  settings : Settings := {}
  containers : Option (List Container) := none

namespace Loader

def index (l : Loader) (files : Files) : Except LoadFault (List Container) × Loader :=
  match l.containers with
  | some containers => (.ok containers, l)
  | none =>
    match l.sources.mapM (·.container l.zip files l.settings) with
    | .ok containers => (.ok containers, { l with containers := some containers })
    | .error f => (.error f, l)

def trimmed (descriptor : String) : String :=
  let chars := descriptor.toList.dropWhile (· = 'L')
  String.ofList (chars.reverse.dropWhile (· = ';')).reverse

def namesIn (c : Container) : Except LoadFault (List String) :=
  ((List.range c.classes.size).mapM fun i => do return trimmed (← c.classDef i).descriptor).mapError .container

def classNames (l : Loader) (files : Files) : Except LoadFault (List String) × Loader :=
  let (index, l) := l.index files
  (do return (← (← index).mapM namesIn).flatten, l)

def describeIn (settings : Settings) (w : Interest) (name : String) :
    List Container → Except LoadFault ClassDescription
  | [] => .error (.classNotFound name)
  | c :: rest =>
    match c.describeClass settings w ("L" ++ name ++ ";") with
    | .error f => .error (.container f)
    | .ok (some d) => .ok d
    | .ok none => describeIn settings w name rest

def describe (l : Loader) (files : Files) (w : Interest) (name : String) :
    Except LoadFault ClassDescription × Loader :=
  let (index, l) := l.index files
  (do describeIn l.settings w name (← index), l)

def define {α : Type} (l : Loader) (files : Files) (w : Interest) (write : ClassDescription → α) (name : String) :
    Except LoadFault α × Loader :=
  let (description, l) := l.describe files w name
  (description.map write, l)

def load (l : Loader) (files : Files) (name : String) : Except LoadFault ClassNode × Loader :=
  l.define files .everything ClassNode.ofDescription name

def list (l : Loader) (files : Files) (name : String) : Except LoadFault String × Loader :=
  l.define files .everything ClassDescription.text name

end Loader

end Restack
