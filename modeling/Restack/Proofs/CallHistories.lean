import Mathlib
import Restack.Proofs.Loader

namespace Restack

-- A loader of containers in memory answers every call as if it were the first. What it keeps from one call to the
-- next is what it would read again.

inductive Request where
  | names
  | load (name : String)
  | define (w : Interest) (write : ClassDescription → Bytes) (name : String)

inductive Answer where
  | names (names : List String)
  | tree (node : ClassNode)
  | bytes (written : Bytes)

namespace Loader

def inMemory (zip : ZipReader) (sources : List Bytes) (settings : Settings) : Loader := { zip, sources := sources.map .memory, settings }

def call (l : Loader) (files : Files) : Request → Except LoadFault Answer × Loader
  | .names => ((l.classNames files).1.map .names,(l.classNames files).2)
  | .load name => ((l.load files name).1.map .tree,(l.load files name).2)
  | .define w write name => ((l.define files w write name).1.map .bytes,(l.define files w write name).2)

def calls : Loader → List (Files × Request) → List (Except LoadFault Answer)
  | _, [] => []
  | l, (files,call) :: rest => (l.call files call).1 :: (l.call files call).2.calls rest

end Loader

-- The container of the first source that defines a class, and where it does.
def FirstDefinition (sources : List Bytes) (descriptor : String) (c : Container) (i : Nat) : Prop :=
  ∃ before bytes after, sources = before ++ bytes :: after ∧ Container.ofBytes bytes = .ok c ∧ ClassNamed bytes i descriptor ∧
    ∀ earlier ∈ before, ∀ j, ¬ClassNamed earlier j descriptor

def Request.answer (settings : Settings) (index : Except LoadFault (List Container)) : Request → Except LoadFault Answer
  | .names => (do return (← (← index).mapM Loader.namesIn).flatten : Except LoadFault (List String)).map .names
  | .load name => ((index >>= Loader.describeIn settings .everything name).map ClassNode.ofDescription).map .tree
  | .define w write name => ((index >>= Loader.describeIn settings w name).map write).map .bytes

namespace Loader

variable {zip : ZipReader} {l : Loader} {sources : List Bytes} {settings : Settings} {containers : List Container}

theorem call_eq (l : Loader) (files : Files) (call : Request) :
    l.call files call = (call.answer (l.index files).2.settings (l.index files).1,(l.index files).2) := by
  cases call <;> rfl

-- What is kept is what the sources hold.
structure Follows (sources : List Bytes) (settings : Settings) (l : Loader) : Prop where
  reads : l.sources = sources.map .memory
  under : l.settings = settings
  kept : ∀ containers, l.containers = some containers → sources.mapM Container.ofBytes = .ok containers

theorem inMemory_follows (zip : ZipReader) (sources : List Bytes) (settings : Settings) : (inMemory zip sources settings).Follows sources settings :=
  ⟨rfl,rfl,fun _ kept => nomatch kept⟩

theorem memory_containers (zip : ZipReader) (files : Files) (settings : Settings) (sources : List Bytes) :
    (sources.map Source.memory).mapM (·.container zip files settings) = (sources.mapM Container.ofBytes).mapError .container := by
  induction sources with
  | nil => rfl
  | cons first rest ih =>
    have here : (Source.memory first).container zip files settings = (Container.ofBytes first).mapError .container := rfl
    rw [List.map_cons,List.mapM_cons,List.mapM_cons,here,ih]
    cases Container.ofBytes first with
    | error fault => rfl
    | ok c => cases rest.mapM Container.ofBytes <;> rfl

theorem Follows.index (follows : l.Follows sources settings) (files : Files) :
    (l.index files).1 = (sources.mapM Container.ofBytes).mapError .container ∧ (l.index files).2.Follows sources settings := by
  have reading := memory_containers l.zip files l.settings sources
  rw [← follows.reads] at reading
  cases cached : l.containers with
  | some containers =>
    have answer : l.index files = (.ok containers,l) := by simp [Loader.index,cached]
    rw [answer,follows.kept containers cached]
    exact ⟨rfl,follows⟩
  | none =>
    cases found : sources.mapM Container.ofBytes with
    | error fault =>
      have answer : l.index files = (.error (.container fault),l) := by simp [Loader.index,cached,reading,found,Except.mapError]
      rw [answer]
      exact ⟨rfl,follows⟩
    | ok containers =>
      have answer : l.index files = (.ok containers,{ l with containers := some containers }) := by
        simp [Loader.index,cached,reading,found,Except.mapError]
      rw [answer]
      refine ⟨rfl,follows.reads,follows.under,?_⟩
      intro others same
      cases same
      exact found

-- One call, and a history of calls.

theorem Follows.call (follows : l.Follows sources settings) (files : Files) (call : Request) :
    (l.call files call).1 = call.answer settings ((sources.mapM Container.ofBytes).mapError .container) ∧
      (l.call files call).2.Follows sources settings := by
  obtain ⟨found,later⟩ := follows.index files
  rw [call_eq,found,later.under]
  exact ⟨rfl,later⟩

theorem Follows.calls (follows : l.Follows sources settings) (history : List (Files × Request)) :
    l.calls history = history.map fun (_,call) => call.answer settings ((sources.mapM Container.ofBytes).mapError .container) := by
  induction history generalizing l with
  | nil => rfl
  | cons first rest ih =>
    obtain ⟨answer,later⟩ := follows.call first.1 first.2
    rw [Loader.calls,List.map_cons,answer,ih later]

theorem containers_there (opens : ∀ b ∈ sources, ∃ c, Container.ofBytes b = .ok c) :
    ∃ containers, sources.mapM Container.ofBytes = .ok containers := by
  cases found : sources.mapM Container.ofBytes with
  | ok containers => exact ⟨containers,rfl⟩
  | error fault =>
    obtain ⟨before,bytes,after,rfl,-,failed⟩ := mapM_error found
    obtain ⟨c,opened⟩ := opens bytes (by simp)
    rw [opened] at failed
    cases failed

theorem absent_iff {descriptor : String} (opened : sources.mapM Container.ofBytes = .ok containers) :
    (∀ c ∈ containers, c.findClass descriptor = .ok none) ↔ ∀ bytes ∈ sources, ∀ i, ¬ClassNamed bytes i descriptor := by
  constructor
  · intro absent bytes member i named
    obtain ⟨c,inside,here⟩ := mapM_mem opened member
    exact (Container.ofBytes_ok here).findClass_none.mp (absent c inside) ⟨i,named⟩
  · intro absent c member
    obtain ⟨bytes,inside,here⟩ := mem_mapM opened member
    exact (Container.ofBytes_ok here).findClass_none.mpr fun named => named.elim (absent bytes inside)

theorem inMemory_define (files : Files) (w : Interest) (write : ClassDescription → α) (name : String)
    (opened : sources.mapM Container.ofBytes = .ok containers) :
    ((inMemory zip sources settings).define files w write name).1 = (describeIn settings w name containers).map write := by
  obtain ⟨found,later⟩ := (inMemory_follows zip sources settings).index files
  rw [opened] at found
  rw [define_answer,found,later.under]
  rfl

theorem inMemory_first {name : String} {c : Container} {i : Nat} (opened : sources.mapM Container.ofBytes = .ok containers)
    (first : FirstDefinition sources (classDescriptor name) c i) (files : Files) (w : Interest) (write : ClassDescription → α) :
    ((inMemory zip sources settings).define files w write name).1 =
      ((c.classDef i >>= c.describe settings w).map write).mapError .container := by
  rw [inMemory_define files w write name opened]
  obtain ⟨before,bytes,after,rfl,here,named,absent⟩ := first
  rw [List.mapM_append] at opened
  simp only [List.mapM_cons,bind_eq_ok,pure_eq_ok] at opened
  obtain ⟨earlier,skipped,_,⟨found,same,later,-,rfl⟩,rfl⟩ := opened
  cases here.symm.trans same
  rw [describeIn_skip ((absent_iff skipped).mpr absent),describeIn_found ((Container.ofBytes_ok here).findClass_named named)]
  cases c.classDef i >>= c.describe settings w <;> rfl

theorem inMemory_missing {missing : String} (opened : sources.mapM Container.ofBytes = .ok containers) (files : Files) (w : Interest)
    (write : ClassDescription → α) (name : String) :
    ((inMemory zip sources settings).define files w write name).1 = .error (.classNotFound missing) ↔
      missing = name ∧ ∀ bytes ∈ sources, ∀ i, ¬ClassNamed bytes i (classDescriptor name) := by
  rw [inMemory_define files w write name opened,← absent_iff opened,← describeIn_missing]
  cases describeIn settings w name containers <;> simp [Except.map]

end Loader

open Loader (inMemory)

theorem first_definition_wins (zip : ZipReader) (sources : List Bytes) (settings : Settings) :
    (∀ history : List (Files × Request), (inMemory zip sources settings).calls history =
      history.map fun (files,call) => ((inMemory zip sources settings).call files call).1) ∧
    (∀ before bytes after fault, sources = before ++ bytes :: after → (∀ b ∈ before, ∃ c, Container.ofBytes b = .ok c) →
      Container.ofBytes bytes = .error fault →
        ∀ files call, ((inMemory zip sources settings).call files call).1 = .error (.container fault)) ∧
    ((∀ b ∈ sources, ∃ c, Container.ofBytes b = .ok c) → ∀ files name,
      (∀ c i, FirstDefinition sources (classDescriptor name) c i →
        ((inMemory zip sources settings).load files name).1 = (c.classDef i >>= c.classNode settings).mapError .container ∧
        ∀ w (write : ClassDescription → Bytes), ((inMemory zip sources settings).define files w write name).1 =
          ((c.classDef i >>= c.describe settings w).map write).mapError .container) ∧
      ∀ missing,
        (((inMemory zip sources settings).load files name).1 = .error (.classNotFound missing) ↔
          missing = name ∧ ∀ bytes ∈ sources, ∀ i, ¬ClassNamed bytes i (classDescriptor name)) ∧
        ∀ w (write : ClassDescription → Bytes), ((inMemory zip sources settings).define files w write name).1 = .error (.classNotFound missing) ↔
          missing = name ∧ ∀ bytes ∈ sources, ∀ i, ¬ClassNamed bytes i (classDescriptor name)) := by
  have follows := Loader.inMemory_follows zip sources settings
  refine ⟨?_,?_,?_⟩
  · intro history
    rw [follows.calls]
    exact List.map_congr_left fun (files,call) _ => (follows.call files call).1.symm
  · rintro before bytes after fault rfl opens failed files call
    rw [(follows.call files call).1,mapM_fails opens failed]
    cases call <;> rfl
  · intro opens files name
    obtain ⟨containers,opened⟩ := Loader.containers_there opens
    refine ⟨fun c i first => ⟨?_,fun w write => Loader.inMemory_first opened first files w write⟩,fun missing =>
      ⟨Loader.inMemory_missing opened files _ _ name,fun w write => Loader.inMemory_missing opened files w write name⟩⟩
    rw [Loader.load,Loader.inMemory_first opened first]
    cases c.classDef i with
    | error fault => rfl
    | ok d =>
      rw [ok_bind,ok_bind,Container.classNode]
      cases c.describe settings .everything d <;> rfl

-- No file is there, and none would be an archive.
def noFiles : Files := fun _ => .error ⟨"No such file or directory"⟩

def noArchives : ZipReader := fun _ => .error (.other "invalid Zip archive")

-- A is defined twice, and B in the last source only.
def threeSources : List Bytes := [soleDefinition [0x41] 1,soleDefinition [0x41] 0x11,soleDefinition [0x42] 1]

theorem first_definition_wins_threeSources :
    (∃ c d, Container.ofBytes (soleDefinition [0x41] 1) = .ok c ∧ c.classDef 0 = .ok d ∧ d.accessFlags = 1 ∧
      (inMemory noArchives threeSources {}).calls [(noFiles,.load "B"),(noFiles,.names),(noFiles,.load "A")] =
        [((inMemory noArchives threeSources {}).call noFiles (.load "B")).1,((inMemory noArchives threeSources {}).call noFiles .names).1,
          ((c.classNode {} d).mapError .container).map .tree]) ∧
    ∃ fault, Container.ofBytes #[] = .error fault ∧
      ((inMemory noArchives (threeSources ++ [#[]]) {}).call noFiles (.load "A")).1 = .error (.container fault) := by
  have opens : ∀ b ∈ threeSources, (Container.ofBytes b).toBool = true := by decide +kernel
  have opened : ∀ b ∈ threeSources, ∃ c, Container.ofBytes b = .ok c := by
    intro b member
    have here := opens b member
    cases done : Container.ofBytes b with
    | error fault => simp [done,Except.toBool] at here
    | ok c => exact ⟨c,rfl⟩
  constructor
  · have told : ((Container.ofBytes (soleDefinition [0x41] 1)).toOption.bind fun c => (c.classDef 0).toOption.map ClassDef.accessFlags) =
        some 1 := by decide +kernel
    obtain ⟨c,done,told⟩ := Option.bind_eq_some_iff.mp told
    obtain ⟨d,defined,flags⟩ := Option.map_eq_some_iff.mp told
    have done := toOption_eq_some.mp done
    have defined := toOption_eq_some.mp defined
    have stored : StringStored (soleDefinition [0x41] 1) (Table.strings.entry (soleDefinition [0x41] 1) 0 0 4) "LA;" :=
      ⟨[3],[0x4c,0x41,0x3b],by decide,by decide,by decide +kernel,by decide +kernel,by decide +kernel⟩
    have named := classNamed_stored 0 0 (by decide +kernel) (by decide +kernel) (by decide +kernel) stored
    obtain ⟨fresh,-,answers⟩ := first_definition_wins noArchives threeSources {}
    have first : FirstDefinition threeSources (classDescriptor "A") c 0 := ⟨[],_,_,rfl,done,named,by simp⟩
    have loaded := ((answers opened noFiles "A").1 c 0 first).1
    rw [defined,ok_bind] at loaded
    refine ⟨c,d,done,defined,flags,?_⟩
    simp only [fresh,← loaded,List.map_cons,List.map_nil,Loader.call]
  · have fails : (Container.ofBytes #[]).toBool = false := by decide +kernel
    cases done : Container.ofBytes #[] with
    | ok c => simp [done,Except.toBool] at fails
    | error fault =>
      exact ⟨fault,rfl,(first_definition_wins noArchives (threeSources ++ [#[]]) {}).2.1 threeSources #[] [] fault rfl opened done _ _⟩

end Restack
